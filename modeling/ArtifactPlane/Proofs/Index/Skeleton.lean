import ArtifactPlane.Proofs.Index.Codec
import ArtifactPlane.Proofs.Index.Moments

/-!
The skeleton of a payload: its nodes with the octets of their texts, before any of these is
decoded.  Where the scan finds no fault it has passed over exactly one skeleton, which is not
too high.  The reader of nodes takes the same octets.  What it gives is built from the skeleton,
so it fails only at a text or a timestamp, and goes no deeper than the skeleton is high.
-/

namespace ArtifactPlane.Index

/-- An artifact, with its texts undecoded. -/
structure RawArtifact where
  date : Octets
  place : Octets
  sources : List Octets

/-- A node and all below it, with their texts undecoded. -/
abbrev Skeleton := RouteTree Octets RawArtifact

/-- Octets after their number. -/
def CountedForm (out bs : Octets) : Prop :=
  out.length < UInt64.size ∧ bs = word out.length ++ out

/-- The octets of an artifact, or of its absence. -/
inductive RawArtifactForm : Option RawArtifact → Octets → Prop
  | absent : RawArtifactForm none [0]
  | present {a : RawArtifact} {date place sources : Octets} (hdate : CountedForm a.date date)
    (hplace : CountedForm a.place place) (hcount : a.sources.length < UInt64.size)
    (hsources : ListForm CountedForm a.sources sources) :
    RawArtifactForm (some a) (1 :: (date ++ place ++ word a.sources.length ++ sources))

/-- The octets of a skeleton. -/
inductive SkeletonForm : Skeleton → Octets → Prop
  | node {segment : Octets} {children : List Skeleton} {a : Option RawArtifact}
    {name below own : Octets} (hname : CountedForm segment name)
    (hcount : children.length < UInt64.size) (hbelow : ListForm SkeletonForm children below)
    (hown : RawArtifactForm a own) :
    SkeletonForm ⟨segment, children, a⟩ (name ++ word children.length ++ below ++ own)

theorem length_pos_of_skeletonForm {r : Skeleton} {bs : Octets} (h : SkeletonForm r bs) :
    0 < bs.length := by
  cases h with
  | @node _ children _ name below own hname hcount hbelow hown =>
    have hword := length_word children.length
    simp only [List.length_append]
    omega

/-- The text of some octets. -/
def decodeText (bs : Octets) : Except Fault String := (Text.Utf8.decode bs).mapError .text

/-- The timestamp of some octets. -/
def decodeStamp (bs : Octets) : Except Fault Timestamp := do
  let stamp ← decodeText bs
  (Timestamp.parse stamp).mapError .timestamp

/-- Each of some things decoded, up to the first fault. -/
def decodeEach {α β : Type} (decode : α → Except Fault β) : List α → Except Fault (List β)
  | [] => return []
  | a :: as => do
    let b ← decode a
    return b :: (← decodeEach decode as)

/-- The artifact of a node, if it has one. -/
def decodeArtifact : Option RawArtifact → Except Fault (Option Artifact)
  | none => return none
  | some a => do
    let builtAt ← decodeStamp a.date
    let location ← decodeText a.place
    let dependsOn ← decodeEach decodeText a.sources
    return some ⟨builtAt, location, dependsOn⟩

namespace Skeleton

mutual

/-- The tree of a skeleton, or the first fault in the order of the octets. -/
def build : Skeleton → Except Fault RouteTree
  | ⟨segment, children, artifact⟩ => do
    let segment ← decodeText segment
    let children ← buildAll children
    return ⟨segment, children, ← decodeArtifact artifact⟩

/-- The trees of some skeletons. -/
def buildAll : List Skeleton → Except Fault (List RouteTree)
  | [] => return []
  | r :: rs => do
    let t ← build r
    return t :: (← buildAll rs)

end

theorem buildAll_eq (rs : List Skeleton) : buildAll rs = decodeEach build rs := by
  induction rs with
  | nil => rfl
  | cons r rs ih => rw [buildAll, decodeEach, ih]

end Skeleton

/-- A fault of a text, or of a timestamp. -/
inductive Fault.OfText : Fault → Prop
  | text (fault : Text.Utf8Fault) : OfText (.text fault)
  | timestamp (fault : Timestamp.Fault) : OfText (.timestamp fault)

/-- Whatever goes wrong is at a text. -/
def Textual {α : Type} (out : Except Fault α) : Prop := ∀ fault, out = .error fault → fault.OfText

namespace Textual

variable {α β : Type} {out : Except Fault α}

theorem pure (a : α) : Textual (Pure.pure a) := fun _ h => nomatch h

theorem bind {next : α → Except Fault β} (h : Textual out) (hnext : ∀ a, Textual (next a)) :
    Textual (out >>= next) := by
  intro fault hfault
  cases out with
  | error other =>
    obtain rfl := Except.error.inj hfault
    exact h _ rfl
  | ok a => exact hnext a fault hfault

theorem mapError {ε : Type} {wrap : ε → Fault} (hwrap : ∀ e, (wrap e).OfText) (x : Except ε α) :
    Textual (x.mapError wrap) := by
  intro fault hfault
  cases x with
  | error e =>
    obtain rfl := Except.error.inj hfault
    exact hwrap e
  | ok a => exact nomatch hfault

theorem decodeText (bs : Octets) : Textual (Index.decodeText bs) := mapError .text _

theorem decodeStamp (bs : Octets) : Textual (Index.decodeStamp bs) :=
  (decodeText bs).bind fun _ => mapError .timestamp _

theorem decodeEach {decode : α → Except Fault β} {as : List α}
    (h : ∀ a ∈ as, Textual (decode a)) : Textual (Index.decodeEach decode as) := by
  induction as with
  | nil => exact pure []
  | cons a as ih =>
    rw [List.forall_mem_cons] at h
    exact h.1.bind fun _ => (ih h.2).bind fun _ => pure _

theorem decodeArtifact (a : Option RawArtifact) : Textual (Index.decodeArtifact a) := by
  cases a with
  | none => exact pure none
  | some a =>
    refine (decodeStamp a.date).bind fun _ => (decodeText a.place).bind fun _ => ?_
    exact (decodeEach fun source _ => decodeText source).bind fun _ => pure _

theorem build (r : Skeleton) : Textual r.build := by
  induction r using RouteTree.induction with
  | node segment children a ih =>
    rw [Skeleton.build, Skeleton.buildAll_eq]
    refine (decodeText segment).bind fun _ => (decodeEach ih).bind fun _ => ?_
    exact (decodeArtifact a).bind fun _ => pure _

end Textual

/-- A reader takes exactly some octets, whatever follows, unless it fails among them. -/
def Takes {α : Type} (read : Reader α) (front : Octets) (out : Except Fault α) : Prop :=
  ∀ rest, read (front ++ rest) = out.map fun a => (a, rest)

namespace Takes

variable {α β : Type} {read : Reader α} {next : α → Reader β} {front back : Octets}
  {out : Except Fault α}

theorem pure (a : α) : Takes (Pure.pure a) [] (.ok a) := fun _ => rfl

theorem of_reads {form : α → Octets → Prop} {a : α} (hread : Reads read form)
    (hform : form a front) : Takes read front (.ok a) :=
  fun _ => (hread _ _ _).mpr ⟨front, rfl, hform⟩

theorem bind {after : α → Except Fault β} (h : Takes read front out)
    (hnext : ∀ a, out = .ok a → Takes (next a) back (after a)) :
    Takes (read >>= next) (front ++ back) (out >>= after) := by
  intro rest
  have hfirst := h (back ++ rest)
  rw [List.append_assoc]
  simp only [Bind.bind, StateT.bind, hfirst]
  cases out with
  | error fault => rfl
  | ok a => exact hnext a rfl rest

/-- A first step that does not fail. -/
theorem bind_ok {a : α} {after : Except Fault β} (h : Takes read front (.ok a))
    (hnext : Takes (next a) back after) : Takes (read >>= next) (front ++ back) after := by
  intro rest
  have hfirst := h (back ++ rest)
  rw [List.append_assoc]
  simp only [Bind.bind, StateT.bind, hfirst]
  exact hnext rest

/-- A step that takes nothing more. -/
theorem bind_nil {after : α → Except Fault β} (h : Takes read front out)
    (hnext : ∀ a, out = .ok a → Takes (next a) [] (after a)) :
    Takes (read >>= next) front (out >>= after) := by
  have hboth := h.bind hnext
  rwa [List.append_nil] at hboth

theorem outcome {ε : Type} (x : Except ε α) (fault : ε → Fault) :
    Takes (Index.outcome x fault) [] (x.mapError fault) := by
  intro rest
  cases x <;> rfl

end Takes

theorem takes_readText {out bs : Octets} (h : CountedForm out bs) :
    Takes readText bs (decodeText out) := by
  rw [readText_eq]
  exact (Takes.of_reads Reader.reads_counted h).bind_nil fun _ _ => Takes.outcome _ _

theorem takes_readTimestamp {out bs : Octets} (h : CountedForm out bs) :
    Takes readTimestamp bs (decodeStamp out) := by
  rw [readTimestamp_eq]
  exact (takes_readText h).bind_nil fun _ _ => Takes.outcome _ _

theorem takes_word {n : Nat} (h : n < UInt64.size) : Takes Reader.word (word n) (.ok n) :=
  .of_reads Reader.reads_word ⟨h, rfl⟩

theorem takes_readMany {α β : Type} {item : Reader β} {form : α → Octets → Prop}
    {decode : α → Except Fault β} {as : List α} {bs : Octets} (h : ListForm form as bs)
    (hitem : ∀ a ∈ as, ∀ front, form a front → Takes item front (decode a)) :
    Takes (readMany item as.length) bs (decodeEach decode as) := by
  induction h with
  | nil => exact .pure []
  | @cons a as front back hfirst hrest ih =>
    rw [List.forall_mem_cons] at hitem
    refine (hitem.1 front hfirst).bind fun b _ => ?_
    exact (ih hitem.2).bind_nil fun bs _ => .pure (b :: bs)

theorem takes_readArtifact {a : Option RawArtifact} {bs : Octets} (h : RawArtifactForm a bs) :
    Takes readArtifact bs (decodeArtifact a) := by
  have hread : ∀ tag : UInt8, Takes Reader.octet [tag] (.ok tag) := fun tag =>
    .of_reads Reader.reads_octet rfl
  cases h with
  | absent => exact (hread 0).bind_ok (.pure none)
  | @present a date place sources hdate hplace hcount hsources =>
    have hparts : 1 :: (date ++ place ++ word a.sources.length ++ sources) =
        [1] ++ (date ++ (place ++ (word a.sources.length ++ sources))) := by
      simp
    rw [hparts]
    refine (hread 1).bind_ok ?_
    rw [if_neg (by decide), if_pos rfl]
    refine (takes_readTimestamp hdate).bind fun builtAt _ => ?_
    refine (takes_readText hplace).bind fun location _ => ?_
    refine (takes_word hcount).bind_ok ?_
    refine (takes_readMany hsources fun _ _ _ => takes_readText).bind_nil fun dependsOn _ => ?_
    exact .pure _

/-- With as many levels as a skeleton is high, the reader of nodes takes just its octets. -/
theorem takes_readNode {r : Skeleton} {bs : Octets} {levels : Nat} (h : SkeletonForm r bs)
    (hlevels : r.height ≤ levels) : Takes (readNode levels) bs r.build := by
  induction r using RouteTree.induction generalizing bs levels with
  | node segment children a ih =>
    obtain ⟨level, rfl⟩ := Nat.exists_eq_succ_of_ne_zero
      (Nat.ne_of_gt (Nat.lt_of_lt_of_le (RouteTree.height_pos _) hlevels))
    have hlow := (RouteTree.height_le_succ_iff _ level).mp hlevels
    cases h with
    | @node _ _ _ name below own hname hcount hbelow hown =>
      rw [readNode, Skeleton.build, Skeleton.buildAll_eq, List.append_assoc, List.append_assoc]
      refine (takes_readText hname).bind fun segment _ => ?_
      refine (takes_word hcount).bind_ok ?_
      refine (takes_readMany hbelow fun c hc _ hform => ih c hc hform (hlow c hc)).bind ?_
      intro trees _
      exact (takes_readArtifact hown).bind_nil fun artifact _ => .pure _

namespace Scan

variable {rest out : Octets} {outer : List Nat} {s t : Scan}

/-- A scan stops only when every node is closed. -/
theorem closed_of_step_eq_none (h : s.step = .ok none) : s.phase = .close ∧ s.openNodes = [] := by
  obtain ⟨rest, phase, openNodes⟩ := s
  cases phase with
  | node =>
    rw [step] at h
    cases hopened : openNode ⟨rest, .node, openNodes⟩ <;> simp [hopened, Except.map] at h
  | close =>
    cases openNodes with
    | nil => exact ⟨rfl, rfl⟩
    | cons count outer =>
      cases count with
      | zero =>
        rw [step] at h
        cases hclosed : closeNode rest outer <;> simp [hclosed, Except.map] at h
      | succ count => simp [step] at h
  | dependencies count =>
    cases count with
    | zero => simp [step] at h
    | succ count =>
      simp only [step, bind, Except.bind] at h
      cases hsource : Reader.counted rest <;> simp [hsource] at h

/-- A scan that ends well and does not stop goes on well. -/
theorem exists_step_of_finish (h : s.finish = .ok out)
    (hlive : ¬ (s.phase = .close ∧ s.openNodes = [])) :
    ∃ t, s.step = .ok (some t) ∧ t.finish = .ok out := by
  rw [finish_eq] at h
  cases hstep : s.step with
  | error fault => simp [hstep] at h
  | ok next =>
    cases next with
    | none => exact absurd (closed_of_step_eq_none hstep) hlive
    | some t => exact ⟨t, rfl, by rwa [hstep] at h⟩

theorem openNode_eq_ok (h : s.openNode = .ok t) : ∃ segment name count left,
    s.rest = name ++ (word count ++ left) ∧ CountedForm segment name ∧ count < UInt64.size ∧
    s.openNodes.length < maxDepth ∧ t = ⟨left, .close, count :: s.openNodes⟩ := by
  rw [openNode] at h
  cases hsegment : Reader.counted s.rest with
  | error fault => simp [hsegment, bind, Except.bind] at h
  | ok p =>
    obtain ⟨segment, after⟩ := p
    cases hcount : Reader.word after with
    | error fault => simp [hsegment, hcount, bind, Except.bind] at h
    | ok q =>
      obtain ⟨count, left⟩ := q
      simp only [hsegment, hcount, bind, Except.bind] at h
      split at h
      · simp at h
      · rename_i hroom
        obtain ⟨name, hname, hform⟩ := (Reader.reads_counted _ _ _).mp hsegment
        obtain ⟨_, rfl, hfits, rfl⟩ := (Reader.reads_word _ _ _).mp hcount
        exact ⟨segment, name, count, left, hname, hform, hfits, Nat.lt_of_not_le hroom,
          (Except.ok.inj h).symm⟩

theorem closeNode_eq_ok (h : closeNode rest outer = .ok t) :
    (∃ left, rest = 0 :: left ∧ t = ⟨left, .close, outer⟩) ∨
    ∃ date place count first second left,
      rest = 1 :: (first ++ (second ++ (word count ++ left))) ∧ CountedForm date first ∧
      CountedForm place second ∧ count < UInt64.size ∧
      t = ⟨left, .dependencies count, outer⟩ := by
  rw [closeNode] at h
  cases rest with
  | nil => simp [Reader.octet, bind, Except.bind] at h
  | cons tag rest =>
    simp only [Reader.octet, bind, Except.bind] at h
    split at h
    · rename_i hzero
      exact .inl ⟨rest, by rw [hzero], (Except.ok.inj h).symm⟩
    · split at h
      · rename_i hone
        cases hdate : Reader.counted rest with
        | error fault => simp [hdate] at h
        | ok p =>
          obtain ⟨date, rest⟩ := p
          cases hplace : Reader.counted rest with
          | error fault => simp [hdate, hplace] at h
          | ok q =>
            obtain ⟨place, rest⟩ := q
            cases hcount : Reader.word rest with
            | error fault => simp [hdate, hplace, hcount] at h
            | ok w =>
              obtain ⟨count, left⟩ := w
              simp only [hdate, hplace, hcount] at h
              obtain ⟨first, rfl, hfirst⟩ := (Reader.reads_counted _ _ _).mp hdate
              obtain ⟨second, rfl, hsecond⟩ := (Reader.reads_counted _ _ _).mp hplace
              obtain ⟨_, rfl, hfits, rfl⟩ := (Reader.reads_word _ _ _).mp hcount
              exact .inr ⟨date, place, count, first, second, left, by rw [hone], hfirst, hsecond,
                hfits, (Except.ok.inj h).symm⟩
      · simp at h

theorem step_dependencies_eq_ok {count : Nat}
    (h : (Scan.mk rest (.dependencies (count + 1)) outer).step = .ok (some t)) :
    ∃ source bs left, rest = bs ++ left ∧ CountedForm source bs ∧
      t = ⟨left, .dependencies count, outer⟩ := by
  simp only [step, bind, Except.bind] at h
  cases hsource : Reader.counted rest with
  | error fault => simp [hsource] at h
  | ok p =>
    obtain ⟨source, left⟩ := p
    simp only [hsource] at h
    obtain ⟨bs, rfl, hbs⟩ := (Reader.reads_counted _ _ _).mp hsource
    exact ⟨source, bs, left, rfl, hbs, (Option.some.inj (Except.ok.inj h)).symm⟩

/-- Dependencies that were passed over are texts one after another. -/
theorem sources_of_finish {count : Nat}
    (h : (Scan.mk rest (.dependencies count) outer).finish = .ok out) :
    ∃ sources bs left, rest = bs ++ left ∧ sources.length = count ∧
      ListForm CountedForm sources bs ∧ (Scan.mk left .close outer).finish = .ok out := by
  induction count generalizing rest with
  | zero =>
    obtain ⟨t, hstep, ht⟩ := exists_step_of_finish h (by simp)
    obtain rfl := Option.some.inj (Except.ok.inj hstep)
    exact ⟨[], [], rest, rfl, rfl, .nil, ht⟩
  | succ count ih =>
    obtain ⟨t, hstep, ht⟩ := exists_step_of_finish h (by simp)
    obtain ⟨source, first, after, rfl, hfirst, rfl⟩ := step_dependencies_eq_ok hstep
    obtain ⟨sources, bs, left, rfl, rfl, hforms, hleft⟩ := ih ht
    exact ⟨source :: sources, first ++ bs, left, by simp, rfl, .cons hfirst hforms, hleft⟩

/-- The artifact of a node that was closed. -/
theorem artifact_of_finish (h : (Scan.mk rest .close (0 :: outer)).finish = .ok out) :
    ∃ a own left, rest = own ++ left ∧ RawArtifactForm a own ∧
      (Scan.mk left .close outer).finish = .ok out := by
  obtain ⟨t, hstep, ht⟩ := exists_step_of_finish h (by simp)
  simp only [step, Except.map] at hstep
  cases hclosed : closeNode rest outer with
  | error fault => simp [hclosed] at hstep
  | ok u =>
    rw [hclosed] at hstep
    obtain rfl := Option.some.inj (Except.ok.inj hstep)
    rcases closeNode_eq_ok hclosed with ⟨left, rfl, rfl⟩ |
      ⟨date, place, count, first, second, left, rfl, hfirst, hsecond, hcount, rfl⟩
    · exact ⟨none, [0], left, rfl, .absent, ht⟩
    · obtain ⟨sources, bs, left, rfl, rfl, hforms, hleft⟩ := sources_of_finish ht
      exact ⟨some ⟨date, place, sources⟩, _, left, by simp,
        .present hfirst hsecond hcount hforms, hleft⟩

/-- What a scan that ends well has before it: at a node its skeleton, and after that what is
still to come of the innermost open node. -/
def Passes (s : Scan) (out : Octets) : Prop :=
  match s.phase, s.openNodes with
  | .node, outer => ∃ r front left, s.rest = front ++ left ∧ SkeletonForm r front ∧
    outer.length + r.height ≤ maxDepth ∧ (Scan.mk left .close outer).finish = .ok out
  | .close, count :: outer => ∃ children a below own left, s.rest = below ++ (own ++ left) ∧
    children.length = count ∧ ListForm SkeletonForm children below ∧ RawArtifactForm a own ∧
    (∀ c ∈ children, outer.length + c.height < maxDepth) ∧
    (Scan.mk left .close outer).finish = .ok out
  | _, _ => True

/-- A node is passed where its children and its artifact are. -/
theorem passes_node (h : (Scan.mk rest .node outer).finish = .ok out)
    (hnext : ∀ t, (Scan.mk rest .node outer).step = .ok (some t) → t.finish = .ok out →
      t.Passes out) : (Scan.mk rest .node outer).Passes out := by
  obtain ⟨t, hstep, ht⟩ := exists_step_of_finish h (by simp)
  have hpasses := hnext t hstep ht
  simp only [step, Except.map] at hstep
  cases hopened : openNode ⟨rest, .node, outer⟩ with
  | error fault => simp [hopened] at hstep
  | ok u =>
    rw [hopened] at hstep
    obtain rfl := Option.some.inj (Except.ok.inj hstep)
    obtain ⟨segment, name, count, after, hrest, hname, hcount, hroom, rfl⟩ :=
      openNode_eq_ok hopened
    obtain ⟨children, a, below, own, left, rfl, rfl, hbelow, hown, hlow, hleft⟩ := hpasses
    refine ⟨⟨segment, children, a⟩, _, left, ?_, .node hname hcount hbelow hown, ?_, hleft⟩
    · simpa using hrest
    · change outer.length < maxDepth at hroom
      change outer.length + RouteTree.height ⟨segment, children, a⟩ ≤ maxDepth
      obtain ⟨level, hlevel⟩ := Nat.exists_eq_add_of_lt hroom
      have hheight : RouteTree.height ⟨segment, children, a⟩ ≤ level + 1 := by
        refine (RouteTree.height_le_succ_iff _ _).mpr fun c hc => ?_
        have hchild : outer.length + c.height < maxDepth := hlow c hc
        omega
      omega

/-- A child after another, and the artifact after the last. -/
theorem passes_close {count : Nat} (h : (Scan.mk rest .close (count :: outer)).finish = .ok out)
    (hnext : ∀ t : Scan, t.remaining < (Scan.mk rest .close (count :: outer)).remaining →
      t.finish = .ok out → t.Passes out) :
    (Scan.mk rest .close (count :: outer)).Passes out := by
  cases count with
  | zero =>
    obtain ⟨a, own, left, rfl, hown, hleft⟩ := artifact_of_finish h
    exact ⟨[], a, [], own, left, rfl, rfl, .nil, hown, by simp, hleft⟩
  | succ count =>
    obtain ⟨t, hstep, ht⟩ := exists_step_of_finish h (by simp)
    have hlower := remaining_lt_of_step hstep
    obtain rfl := Option.some.inj (Except.ok.inj hstep)
    obtain ⟨r, front, after, hfront, hform, hroom, hafter⟩ := hnext _ hlower ht
    obtain rfl : rest = front ++ after := hfront
    have hshorter : (Scan.mk after .close (count :: outer)).remaining <
        (Scan.mk (front ++ after) .close ((count + 1) :: outer)).remaining := by
      have hpos := length_pos_of_skeletonForm hform
      simp only [remaining, Phase.rank, List.length_append]
      omega
    obtain ⟨children, a, below, own, left, hrest, rfl, hbelow, hown, hlow, hleft⟩ :=
      hnext _ hshorter hafter
    obtain rfl : after = below ++ (own ++ left) := hrest
    refine ⟨r :: children, a, front ++ below, own, left, by simp, rfl, .cons hform hbelow, hown,
      List.forall_mem_cons.mpr ⟨?_, hlow⟩, hleft⟩
    rw [List.length_cons] at hroom
    omega

/-- A scan that ends well passes over skeletons. -/
theorem passes_of_finish (h : s.finish = .ok out) : s.Passes out := by
  induction hweight : s.remaining using Nat.strongRecOn generalizing s with
  | ind remaining ih =>
    have hnext : ∀ t : Scan, t.remaining < s.remaining → t.finish = .ok out → t.Passes out :=
      fun t hlower ht => ih t.remaining (hweight ▸ hlower) ht rfl
    obtain ⟨rest, phase, openNodes⟩ := s
    cases phase with
    | node => exact passes_node h fun t hstep => hnext t (remaining_lt_of_step hstep)
    | close =>
      cases openNodes with
      | nil => trivial
      | cons count outer => exact passes_close h hnext
    | dependencies count => trivial

end Scan

theorem skeleton_of_checkDepth {payload : Octets} (h : checkDepth payload = .ok ()) :
    ∃ r front rest, payload = front ++ rest ∧ SkeletonForm r front ∧ r.height ≤ maxDepth ∧
      (Scan.start payload).finish = .ok rest := by
  cases hfinish : (Scan.start payload).finish with
  | error fault =>
    simp [checkDepth, hfinish, Except.map] at h
  | ok rest =>
    obtain ⟨r, front, left, hpayload, hform, hlow, hleft⟩ := Scan.passes_of_finish hfinish
    obtain rfl := Except.ok.inj ((Scan.finish_closed left).symm.trans hleft)
    have hroom : 0 + r.height ≤ maxDepth := hlow
    exact ⟨r, front, left, hpayload, hform, by omega, rfl⟩

/-- What the scan of a payload takes, and what may be relied on after it. -/
structure Prescan (payload : Octets) : Prop where
  /-- At every moment, what was met has taken its share of the octets before the rest. -/
  takes : ∀ n, ∃ front, payload = front ++ (Moment.after n payload).rest ∧
    16 * (Moment.after n payload).nodes + (Moment.after n payload).tags +
      8 * (Moment.after n payload).sources ≤ front.length ∧ front.length ≤ payload.length
  opens : ∀ n, (Moment.after n payload).openNodes.length ≤ maxDepth + 1
  /-- It ends after so many turns, whatever the payload declares. -/
  ends : ∀ n, 4 * payload.length + 1 ≤ n →
    (Moment.after n payload).turn = .ended (checkDepth payload)
  /-- It finds no fault but those of a scan, and loading reports it as one of decoding. -/
  faults : ∀ fault, checkDepth payload = .error fault → fault.OfScan ∧
    Router.load (header ++ payload) = .error (.decode fault)
  /-- Where it finds none, it has passed over one skeleton. -/
  skeleton : checkDepth payload = .ok () → ∃ r front rest, payload = front ++ rest ∧
    SkeletonForm r front ∧ r.height ≤ maxDepth ∧
    (∀ n, 4 * payload.length + 1 ≤ n → (Moment.after n payload).rest = rest) ∧
    (∀ levels, r.height ≤ levels → readNode levels payload = r.build.map fun t => (t, rest)) ∧
    ∀ fault, r.build = .error fault → fault.OfText

/-- The scan takes no more than its payload, and no reader goes deeper than the scan allows. -/
theorem prescan (payload : Octets) : Prescan payload where
  takes n := by
    obtain ⟨front, hpayload, hcost⟩ := (Moment.bounded_after n payload).takes
    have hlength := congrArg List.length hpayload
    rw [List.length_append] at hlength
    exact ⟨front, hpayload, Nat.le_trans (Nat.le_add_right _ _) hcost, by omega⟩
  opens n := by
    have hopen := (Moment.bounded_after n payload).opens
    exact Nat.le_trans hopen (Nat.add_le_add_left (Turn.slack_le_one _) _)
  ends n hn := (Moment.ended_after hn).1
  faults fault hfault := by
    obtain ⟨hturn, -⟩ := Moment.ended_after (Nat.le_refl (4 * payload.length + 1))
    refine ⟨(Moment.bounded_after _ payload).faults fault (hfault ▸ hturn), ?_⟩
    have hpayload : Index.payload (header ++ payload) = .ok payload := rfl
    rw [Router.load, decode, hpayload]
    simp only [bind, Except.bind, hfault]
    rfl
  skeleton hok := by
    obtain ⟨r, front, rest, hpayload, hform, hlow, hfinish⟩ := skeleton_of_checkDepth hok
    refine ⟨r, front, rest, hpayload, hform, hlow, fun n hn => ?_, fun levels hlevels => ?_,
      Textual.build r⟩
    · obtain ⟨-, hrest⟩ := Moment.ended_after hn
      rw [hfinish, hok] at hrest
      exact (Except.ok.inj hrest).symm
    · rw [hpayload]
      exact takes_readNode hform hlevels rest

end ArtifactPlane.Index
