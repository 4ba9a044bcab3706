import ArtifactPlane.Proofs.Index.Reads

/-!
Timestamps that were read have short written forms, so each of them can be written into an
index again.
-/

namespace ArtifactPlane.Timestamp

variable {α β : Type}

/-- Whatever a reader yields has a property. -/
def Yields (read : Reader α) (P : α → Prop) : Prop :=
  ∀ cs a rest, read cs = .ok (a, rest) → P a

namespace Yields

variable {read : Reader α} {next : α → Reader β} {P : α → Prop} {Q : β → Prop}

theorem pure {a : α} (h : P a) : Yields (Pure.pure a) P := by
  intro cs b rest hb
  change Except.ok (a, cs) = Except.ok (b, rest) at hb
  obtain rfl := (Prod.mk.inj (Except.ok.inj hb)).1
  exact h

theorem throw (fault : Fault) : Yields (MonadExcept.throw fault) P := by
  intro cs a rest h
  change Except.error fault = Except.ok (a, rest) at h
  cases h

theorem bind (hread : Yields read P) (hnext : ∀ a, P a → Yields (next a) Q) :
    Yields (read >>= next) Q := by
  intro cs b rest h
  obtain ⟨a, left, ha, hb⟩ := Index.bind_eq_ok.mp h
  exact hnext a (hread cs a left ha) left b rest hb

/-- What the first step yields does not matter. -/
theorem bind_any (hnext : ∀ a, Yields (next a) Q) : Yields (read >>= next) Q :=
  bind (fun _ _ _ _ => trivial) fun a (_ : True) => hnext a

theorem ite {c : Prop} [Decidable c] {other : Reader α} (hread : c → Yields read P)
    (hother : ¬ c → Yields other P) : Yields (if c then read else other) P := by
  split
  · next hc => exact hread hc
  · next hc => exact hother hc

end Yields

theorem yields_number (width : Option Nat) :
    Yields (Reader.number width) (· ≤ Reader.largestNumber) := by
  unfold Reader.number
  refine Yields.bind_any fun cs => ?_
  refine Yields.ite (fun _ => Yields.throw _) fun _ => ?_
  refine Yields.ite (fun _ => Yields.throw _) fun _ => ?_
  refine Yields.ite (fun _ => Yields.throw _) fun hlarge => ?_
  exact Yields.bind_any fun _ => Yields.pure (Nat.le_of_not_lt hlarge)

theorem yields_fraction :
    Yields Reader.fraction (· ≤ Reader.largestNumber * Nat.pow 10 9) := by
  unfold Reader.fraction
  refine Yields.bind_any fun cs => ?_
  split
  · refine Yields.bind_any fun _ => Yields.bind (yields_number (some 9)) fun n hn => ?_
    refine Yields.bind_any fun _ => Yields.pure ?_
    exact Nat.mul_le_mul hn (Nat.pow_le_pow_right (by decide) (Nat.sub_le _ _))
  · exact Yields.pure (Nat.zero_le _)

/-- A bound on the nanoseconds that are read. -/
def largestNano : Nat := nanosPerSecond + Reader.largestNumber * Nat.pow 10 9

theorem yields_timeOfDay : Yields Reader.timeOfDay fun time => time.2 ≤ largestNano := by
  unfold Reader.timeOfDay
  iterate 7 refine Yields.bind_any fun _ => ?_
  refine Yields.bind yields_fraction fun nano hnano => Yields.bind_any fun _ => ?_
  dsimp only
  split
  · exact Yields.pure (Nat.add_le_add_left hnano _)
  · exact Yields.pure (Nat.le_trans hnano (Nat.le_add_left _ _))

theorem yields_written : Yields Reader.written fun w => w.2.2.1 ≤ largestNano := by
  unfold Reader.written
  refine Yields.bind_any fun d => Yields.bind_any fun _ => ?_
  refine Yields.bind yields_timeOfDay fun time hnano => ?_
  exact Yields.bind_any fun _ => Yields.bind_any fun _ => Yields.pure hnano

/-- What a timestamp that was read is like. -/
structure Bounded (t : Timestamp) : Prop where
  date : (Date.ofDays t.day).isValid = true
  second : t.second < 86400
  nano : t.nano ≤ largestNano

theorem bounded_of_parse {text : String} {t : Timestamp} (h : parse text = .ok t) :
    t.Bounded := by
  unfold parse at h
  cases hw : Reader.written text.toList with
  | error fault => simp [hw, bind, Except.bind] at h
  | ok w =>
    obtain ⟨⟨d, second, nano, ahead⟩, rest⟩ := w
    have hnano : nano ≤ largestNano := yields_written _ _ _ hw
    simp only [hw, bind, Except.bind, resolve] at h
    split at h
    · simp at h
    · split at h
      · next hdate =>
        obtain rfl := Except.ok.inj h
        refine ⟨hdate, ?_, hnano⟩
        have hpos : 0 < secondsPerDay := by decide
        have hlt := Int.emod_lt_of_pos ((second : Int) - ahead) hpos
        simp only [secondsPerDay] at hlt ⊢
        omega
      · simp at h

theorem utf8ByteSize_ofList_le (cs : List Char) :
    (String.ofList cs).utf8ByteSize ≤ 4 * cs.length := by
  induction cs with
  | nil => simp
  | cons c cs ih =>
    have hc := c.utf8Size_le_four
    rw [String.ofList_cons, String.utf8ByteSize_append, String.utf8ByteSize_singleton,
      List.length_cons]
    omega

theorem utf8ByteSize_padded_le {width n count : Nat} (hwidth : width ≤ count) (hpos : 0 < count)
    (h : n < Nat.pow 10 count) : (padded width n).utf8ByteSize ≤ 4 * count := by
  have hdigits : (Nat.toDigits 10 n).length ≤ count :=
    (Nat.length_toDigits_le_iff (by decide) hpos).mpr h
  apply Nat.le_trans (utf8ByteSize_ofList_le _)
  rw [List.length_append, List.length_replicate]
  omega

theorem utf8ByteSize_yearText_le {year : Int} (hfirst : Date.firstYear ≤ year)
    (hlast : year ≤ Date.lastYear) : (yearText year).utf8ByteSize ≤ 25 := by
  unfold Date.firstYear at hfirst
  unfold Date.lastYear at hlast
  unfold yearText
  split
  · have hyear : year.toNat < Nat.pow 10 4 := by
      change year.toNat < 10000
      omega
    exact Nat.le_trans (utf8ByteSize_padded_le (Nat.le_refl 4) (by decide) hyear) (by decide)
  · have hyear : year.natAbs < Nat.pow 10 6 := by
      change year.natAbs < 1000000
      omega
    have hdigits : (padded 4 year.natAbs).utf8ByteSize ≤ 4 * 6 :=
      utf8ByteSize_padded_le (by decide) (by decide) hyear
    have hsign : (if year < 0 then "-" else "+").utf8ByteSize = 1 := by
      split <;> decide
    rw [String.utf8ByteSize_append, hsign]
    omega

theorem utf8ByteSize_fractionText_le {nano : Nat} (h : nano ≤ largestNano) :
    (fractionText nano).utf8ByteSize ≤ 121 := by
  have hlimit : largestNano < Nat.pow 10 30 := by decide
  have hdot : ".".utf8ByteSize = 1 := by decide
  have hpart : ∀ {width n : Nat}, width ≤ 9 → n ≤ nano →
      ("." ++ padded width n).utf8ByteSize ≤ 121 := by
    intro width n hwidth hn
    have hdigits : (padded width n).utf8ByteSize ≤ 4 * 30 :=
      utf8ByteSize_padded_le (by omega) (by decide)
        (Nat.lt_of_le_of_lt (Nat.le_trans hn h) hlimit)
    rw [String.utf8ByteSize_append, hdot]
    omega
  unfold fractionText
  split
  · decide
  · split
    · exact hpart (by decide) (Nat.div_le_self _ _)
    · split
      · exact hpart (by decide) (Nat.div_le_self _ _)
      · exact hpart (by decide) (Nat.le_refl _)

theorem Bounded.utf8ByteSize_render_le {t : Timestamp} (h : t.Bounded) :
    t.render.utf8ByteSize ≤ 1000 := by
  obtain ⟨hfirst, hlast, -, hmonth, -, hday⟩ := of_decide_eq_true h.date
  have hmonthDays : ∀ year month, Date.daysInMonth year month ≤ 31 := by
    intro year month
    unfold Date.daysInMonth
    split
    · split <;> decide
    · split <;> decide
  have hpair : ∀ n, n < 100 → (padded 2 n).utf8ByteSize ≤ 8 :=
    fun n hn => utf8ByteSize_padded_le (Nat.le_refl 2) (by decide) hn
  have hsecond := h.second
  have hnano : (if nanosPerSecond ≤ t.nano then t.nano - nanosPerSecond else t.nano) ≤
      largestNano := by
    have hle := h.nano
    split <;> omega
  have hleap : t.second % 60 + (if nanosPerSecond ≤ t.nano then 1 else 0) < 100 := by
    split <;> omega
  have hyear := utf8ByteSize_yearText_le hfirst hlast
  have hmonthText := hpair (Date.ofDays t.day).month (by omega)
  have hdayText := hpair (Date.ofDays t.day).day
    (Nat.lt_of_le_of_lt (Nat.le_trans hday (hmonthDays _ _)) (by decide))
  have hhourText := hpair (t.second / 3600) (by omega)
  have hminuteText := hpair (t.second / 60 % 60) (by omega)
  have hsecondText := hpair _ hleap
  have hfraction := utf8ByteSize_fractionText_le hnano
  have hmarks : "-".utf8ByteSize = 1 ∧ "T".utf8ByteSize = 1 ∧ ":".utf8ByteSize = 1 ∧
      "Z".utf8ByteSize = 1 := by decide
  simp only [render, String.utf8ByteSize_append, hmarks]
  omega

theorem Bounded.writable_render {t : Timestamp} (h : t.Bounded) : Index.Writable t.render := by
  have hshort := h.utf8ByteSize_render_le
  have hlength : (Octets.ofString t.render).length = t.render.utf8ByteSize := rfl
  rw [Index.Writable, hlength]
  exact Nat.lt_of_le_of_lt hshort (by decide)

end ArtifactPlane.Timestamp
