import ArtifactPlane.Index.Decode

/-!
Readers and the forms that they read.  A reader takes a form from the front of some octets
when it yields a value and a rest exactly where a form of the value stands before the rest.
So it never looks past the form, and no form of one value begins with a form of another.
Words and texts have one form each, the one in which they are written.
-/

namespace ArtifactPlane.Index

variable {α β : Type}

/-- A reader takes exactly the forms of a relation from the front of the octets. -/
def Reads (read : Reader α) (form : α → Octets → Prop) : Prop :=
  ∀ bs a rest, read bs = .ok (a, rest) ↔ ∃ front, bs = front ++ rest ∧ form a front

/-- What two steps yield comes from what the first of them yields and leaves. -/
theorem bind_eq_ok {σ ε : Type} {read : StateT σ (Except ε) α} {next : α → StateT σ (Except ε) β}
    {s rest : σ} {b : β} :
    (read >>= next) s = .ok (b, rest) ↔
      ∃ a left, read s = .ok (a, left) ∧ next a left = .ok (b, rest) := by
  simp only [bind, StateT.bind, Except.bind]
  cases read s with
  | error fault => simp
  | ok p =>
    constructor
    · intro h
      exact ⟨p.1, p.2, rfl, h⟩
    · rintro ⟨a, left, hp, h⟩
      obtain rfl := Except.ok.inj hp
      exact h

namespace Reads

variable {read : Reader α} {next : α → Reader β} {form : α → Octets → Prop}

theorem pure (a : α) : Reads (Pure.pure a : Reader α) fun b bs => b = a ∧ bs = [] := by
  intro bs b rest
  change Except.ok (a, bs) = Except.ok (b, rest) ↔ _
  constructor
  · intro h
    obtain ⟨rfl, rfl⟩ : a = b ∧ bs = rest := by simpa using h
    exact ⟨[], rfl, rfl, rfl⟩
  · rintro ⟨front, rfl, rfl, rfl⟩
    rfl

theorem throw (fault : Fault) :
    Reads (MonadExcept.throw fault : Reader α) fun _ _ => False := by
  intro bs a rest
  change Except.error fault = Except.ok (a, rest) ↔ _
  simp

/-- One form after another. -/
theorem bind (hread : Reads read form) {forms : α → β → Octets → Prop}
    (hnext : ∀ a, Reads (next a) (forms a)) :
    Reads (read >>= next) fun b bs =>
      ∃ a front back, bs = front ++ back ∧ form a front ∧ forms a b back := by
  intro bs b rest
  rw [bind_eq_ok]
  constructor
  · rintro ⟨a, left, ha, hb⟩
    obtain ⟨front, rfl, hfront⟩ := (hread _ _ _).mp ha
    obtain ⟨back, rfl, hback⟩ := (hnext a _ _ _).mp hb
    exact ⟨front ++ back, by simp, a, front, back, rfl, hfront, hback⟩
  · rintro ⟨both, rfl, a, front, back, rfl, hfront, hback⟩
    refine ⟨a, back ++ rest, (hread _ _ _).mpr ⟨front, by simp, hfront⟩, ?_⟩
    exact (hnext a _ _ _).mpr ⟨back, rfl, hback⟩

theorem congr (hread : Reads read form) {other : α → Octets → Prop}
    (h : ∀ a bs, form a bs ↔ other a bs) : Reads read other := by
  intro bs a rest
  rw [hread bs a rest]
  simp only [h]

/-- A form of one value does not begin with a form of another, nor with one of its own. -/
theorem eq_of_append (hread : Reads read form) {a b : α} {bs more : Octets} (ha : form a bs)
    (hb : form b (bs ++ more)) : a = b ∧ more = [] := by
  have hshort := (hread (bs ++ more) a more).mpr ⟨bs, rfl, ha⟩
  have hlong := (hread (bs ++ more) b []).mpr ⟨bs ++ more, by simp, hb⟩
  simpa using hshort.symm.trans hlong

end Reads

namespace Reader

theorem reads_octet : Reads octet fun b bs => bs = [b] := by
  intro bs b rest
  cases bs with
  | nil => simp [octet]
  | cons c bs => simp [octet]

theorem reads_octets (n : Nat) : Reads (octets n) fun out bs => bs = out ∧ out.length = n := by
  intro bs out rest
  constructor
  · intro h
    obtain ⟨rfl, hlength⟩ := octets_eq_ok h
    exact ⟨out, rfl, rfl, hlength⟩
  · rintro ⟨front, rfl, rfl, rfl⟩
    exact octets_append front rest

end Reader

/-- The octets of a number from the least significant on, as many as asked for. -/
def digits (count n : Nat) : Octets :=
  (List.range count).map fun i => UInt8.ofNat (n >>> (8 * i))

theorem word_eq_digits (n : Nat) : word n = digits 8 n := rfl

theorem digits_succ (count n : Nat) :
    digits (count + 1) n = UInt8.ofNat n :: digits count (n / 256) := by
  have hshift : ∀ i, n >>> (8 * (i + 1)) = (n / 256) >>> (8 * i) := by
    intro i
    rw [show 8 * (i + 1) = 8 + 8 * i by omega, Nat.shiftRight_add, Nat.shiftRight_eq_div_pow n 8]
  simp only [digits, List.range_succ_eq_map, List.map_cons, List.map_map, Function.comp_def,
    Nat.succ_eq_add_one, hshift, Nat.mul_zero, Nat.shiftRight_zero]

theorem littleEndian_digits (count n : Nat) (h : n < Nat.pow 256 count) :
    Reader.littleEndian (digits count n) = n := by
  induction count generalizing n with
  | zero =>
    obtain rfl : n = 0 := by simpa using h
    rfl
  | succ count ih =>
    have hsmall : n / 256 < Nat.pow 256 count :=
      (Nat.div_lt_iff_lt_mul (by decide)).mpr h
    rw [digits_succ]
    change (UInt8.ofNat n).toNat + 256 * Reader.littleEndian (digits count (n / 256)) = n
    rw [ih _ hsmall, UInt8.toNat_ofNat']
    exact Nat.mod_add_div n 256

theorem digits_littleEndian (bs : Octets) :
    digits bs.length (Reader.littleEndian bs) = bs ∧
      Reader.littleEndian bs < Nat.pow 256 bs.length := by
  induction bs with
  | nil => exact ⟨rfl, by decide⟩
  | cons b bs ih =>
    obtain ⟨heq, hlt⟩ := ih
    have hb : b.toNat < 256 := b.toNat_lt
    have hvalue : Reader.littleEndian (b :: bs) = b.toNat + 256 * Reader.littleEndian bs := rfl
    have hhigh : (b.toNat + 256 * Reader.littleEndian bs) / 256 = Reader.littleEndian bs := by
      omega
    have hlow : UInt8.ofNat (b.toNat + 256 * Reader.littleEndian bs) = b := by
      apply UInt8.toNat_inj.mp
      rw [UInt8.toNat_ofNat']
      omega
    rw [hvalue, List.length_cons, digits_succ, hhigh, hlow, heq]
    refine ⟨rfl, ?_⟩
    change _ < Nat.pow 256 bs.length * 256
    omega

/-- A word is read exactly where it is written, and it is below the limit of its octets. -/
theorem Reader.reads_word : Reads word fun n bs => n < UInt64.size ∧ bs = Index.word n := by
  apply ((Reader.reads_octets 8).bind fun out => Reads.pure (littleEndian out)).congr
  intro n bs
  constructor
  · rintro ⟨out, front, back, rfl, ⟨rfl, hlength⟩, rfl, rfl⟩
    obtain ⟨heq, hlt⟩ := digits_littleEndian front
    rw [hlength] at heq hlt
    exact ⟨hlt, by rw [List.append_nil, word_eq_digits, heq]⟩
  · rintro ⟨hlt, rfl⟩
    refine ⟨Index.word n, Index.word n, [], by simp, ⟨rfl, length_word n⟩, ?_, rfl⟩
    exact (littleEndian_digits 8 n hlt).symm

theorem Reader.reads_counted :
    Reads counted fun out bs => out.length < UInt64.size ∧ bs = Index.word out.length ++ out := by
  apply (Reader.reads_word.bind Reader.reads_octets).congr
  intro out bs
  constructor
  · rintro ⟨n, front, back, rfl, ⟨hlt, rfl⟩, rfl, rfl⟩
    exact ⟨hlt, rfl⟩
  · rintro ⟨hlt, rfl⟩
    exact ⟨out.length, _, out, rfl, ⟨hlt, rfl⟩, rfl, rfl⟩

theorem utf8_decode_eq_ok_iff {bs : Octets} {s : String} :
    Text.Utf8.decode bs = .ok s ↔ bs = Octets.ofString s := by
  constructor
  · intro h
    unfold Text.Utf8.decode at h
    split at h
    · next t ht =>
      obtain rfl : t = s := by simpa using h
      unfold String.fromUTF8? at ht
      split at ht
      · obtain rfl := Option.some.inj ht
        rfl
      · simp at ht
    · simp at h
  · rintro rfl
    exact Text.Utf8.decode_ofString s

/-- A text is short enough for the number of its octets to fit a word. -/
def Writable (s : String) : Prop := (Octets.ofString s).length < UInt64.size

instance (s : String) : Decidable (Writable s) :=
  inferInstanceAs (Decidable ((Octets.ofString s).length < UInt64.size))

/-- The one form of a text. -/
def TextForm (s : String) (bs : Octets) : Prop := Writable s ∧ bs = text s

/-- Go on with what was worked out without the octets, or fail with its fault. -/
def outcome {ε : Type} (x : Except ε α) (fault : ε → Fault) : Reader α :=
  match x with
  | .ok a => Pure.pure a
  | .error e => MonadExcept.throw (fault e)

theorem reads_outcome {ε : Type} (x : Except ε α) (fault : ε → Fault) :
    Reads (outcome x fault) fun a bs => x = .ok a ∧ bs = [] := by
  cases x with
  | ok a =>
    apply (Reads.pure a).congr
    intro b bs
    simp [eq_comm]
  | error e =>
    apply (Reads.throw (fault e)).congr
    intro b bs
    simp

theorem readText_eq :
    readText = Reader.counted >>= fun out => outcome (Text.Utf8.decode out) Fault.text := by
  unfold readText
  congr 1
  funext out
  cases Text.Utf8.decode out <;> rfl

theorem reads_readText : Reads readText TextForm := by
  rw [readText_eq]
  apply (Reader.reads_counted.bind fun out => reads_outcome _ Fault.text).congr
  intro s bs
  constructor
  · rintro ⟨out, front, back, rfl, ⟨hlt, rfl⟩, hout, rfl⟩
    obtain rfl := utf8_decode_eq_ok_iff.mp hout
    exact ⟨hlt, by simp [text]⟩
  · rintro ⟨hlt, rfl⟩
    exact ⟨Octets.ofString s, _, [], (List.append_nil _).symm, ⟨hlt, rfl⟩,
      utf8_decode_eq_ok_iff.mpr rfl, rfl⟩

/-- The forms of some values one after another. -/
inductive ListForm (form : α → Octets → Prop) : List α → Octets → Prop
  | nil : ListForm form [] []
  | cons {a : α} {as : List α} {front back : Octets} (hfirst : form a front)
    (hrest : ListForm form as back) : ListForm form (a :: as) (front ++ back)

theorem listForm_cons_iff {form : α → Octets → Prop} {a : α} {as : List α} {bs : Octets} :
    ListForm form (a :: as) bs ↔
      ∃ front back, bs = front ++ back ∧ form a front ∧ ListForm form as back := by
  constructor
  · rintro (_ | ⟨hfirst, hrest⟩)
    exact ⟨_, _, rfl, hfirst, hrest⟩
  · rintro ⟨front, back, rfl, hfirst, hrest⟩
    exact .cons hfirst hrest

theorem reads_readMany {item : Reader α} {form : α → Octets → Prop} (hitem : Reads item form)
    (n : Nat) : Reads (readMany item n) fun as bs => as.length = n ∧ ListForm form as bs := by
  induction n with
  | zero =>
    apply (Reads.pure []).congr
    intro as bs
    constructor
    · rintro ⟨rfl, rfl⟩
      exact ⟨rfl, .nil⟩
    · rintro ⟨hlength, hform⟩
      obtain rfl := List.length_eq_zero_iff.mp hlength
      cases hform
      exact ⟨rfl, rfl⟩
  | succ n ih =>
    apply (hitem.bind fun a => ih.bind fun rest => Reads.pure (a :: rest)).congr
    intro as bs
    constructor
    · rintro ⟨a, front, _, rfl, hfirst, rest, back, _, rfl, ⟨hlength, hrest⟩, rfl, rfl⟩
      rw [List.append_nil]
      exact ⟨congrArg (· + 1) hlength, .cons hfirst hrest⟩
    · rintro ⟨hlength, hform⟩
      cases hform with
      | nil => simp at hlength
      | @cons a rest front back hfirst hrest =>
        have hshort : rest.length = n := by simpa using hlength
        exact ⟨a, front, back, rfl, hfirst, rest, back, [], by simp, ⟨hshort, hrest⟩, rfl, rfl⟩

end ArtifactPlane.Index
