import ArtifactPlane.Index.Layout

/-!
A scan of the node structure before anything is built.  It keeps one counter for
each open node and stops at the first node that lies too deep, so that a hostile
index costs no more than its octets.  Every step either takes octets or passes from
a phase to a lower one.
-/

namespace ArtifactPlane.Index

/-- What the scan reads next. -/
inductive Phase where
  /-- The segment and the child count of a node. -/
  | node
  /-- The next child of the innermost open node, or its artifact after the last. -/
  | close
  /-- Dependencies still to come. -/
  | dependencies (count : Nat)
deriving DecidableEq, Repr

/-- How little is left to do without taking octets. -/
def Phase.rank : Phase → Nat
  | .node => 0
  | .close => 1
  | .dependencies _ => 2

/-- The state of a scan. -/
structure Scan where
  rest : Octets
  phase : Phase
  /-- Children still to come for each open node, the innermost first. -/
  openNodes : List Nat
deriving DecidableEq, Repr

namespace Scan

/-- A scan of a payload from its first octet. -/
def start (payload : Octets) : Scan := ⟨payload, .node, []⟩

/-- Read the segment and the child count of a node. -/
def openNode (s : Scan) : Except Fault Scan := do
  let (_, rest) ← Reader.counted s.rest
  let (children, rest) ← Reader.word rest
  if maxDepth ≤ s.openNodes.length then .error .tooDeep
  else .ok ⟨rest, .close, children :: s.openNodes⟩

/-- Read the artifact of the innermost node, up to its dependencies; `outer` are the
nodes around it. -/
def closeNode (rest : Octets) (outer : List Nat) : Except Fault Scan := do
  let (tag, rest) ← Reader.octet rest
  if tag = 0 then .ok ⟨rest, .close, outer⟩
  else if tag = 1 then
    let (_, rest) ← Reader.counted rest
    let (_, rest) ← Reader.counted rest
    let (count, rest) ← Reader.word rest
    .ok ⟨rest, .dependencies count, outer⟩
  else .error (.artifactTag tag)

/-- One step; `none` when the root is closed. -/
def step (s : Scan) : Except Fault (Option Scan) :=
  match s.phase with
  | .node => s.openNode.map some
  | .close =>
    match s.openNodes with
    | [] => .ok none
    | 0 :: outer => (closeNode s.rest outer).map some
    | (n + 1) :: outer => .ok (some ⟨s.rest, .node, n :: outer⟩)
  | .dependencies 0 => .ok (some { s with phase := .close })
  | .dependencies (n + 1) => do
    let (_, rest) ← Reader.counted s.rest
    .ok (some ⟨rest, .dependencies n, s.openNodes⟩)

/-- The measure that every step lowers. -/
def remaining (s : Scan) : Nat := 3 * s.rest.length + s.phase.rank

theorem rest_of_openNode {s t : Scan} (h : s.openNode = .ok t) :
    t.rest.length + 16 ≤ s.rest.length := by
  rw [openNode] at h
  cases hread : Reader.counted s.rest with
  | error e => simp [hread, bind, Except.bind] at h
  | ok p =>
    obtain ⟨segment, rest⟩ := p
    cases hword : Reader.word rest with
    | error e => simp [hread, hword, bind, Except.bind] at h
    | ok q =>
      obtain ⟨children, left⟩ := q
      simp only [hread, hword, bind, Except.bind] at h
      split at h
      · simp at h
      · have hr := Reader.counted_eq_ok hread
        have hw := Reader.word_eq_ok hword
        cases h
        simp only
        omega

theorem rest_of_closeNode {rest : Octets} {outer : List Nat} {t : Scan}
    (h : closeNode rest outer = .ok t) : t.rest.length < rest.length := by
  rw [closeNode] at h
  cases rest with
  | nil => simp [Reader.octet, bind, Except.bind] at h
  | cons tag rest =>
    simp only [Reader.octet, bind, Except.bind] at h
    split at h
    · cases h
      simp
    · split at h
      · cases h1 : Reader.counted rest with
        | error e => simp [h1] at h
        | ok p =>
          obtain ⟨o1, r1⟩ := p
          cases h2 : Reader.counted r1 with
          | error e => simp [h1, h2] at h
          | ok q =>
            obtain ⟨o2, r2⟩ := q
            cases h3 : Reader.word r2 with
            | error e => simp [h1, h2, h3] at h
            | ok w =>
              obtain ⟨count, r3⟩ := w
              simp only [h1, h2, h3] at h
              have e1 := Reader.counted_eq_ok h1
              have e2 := Reader.counted_eq_ok h2
              have e3 := Reader.word_eq_ok h3
              cases h
              simp only [List.length_cons]
              omega
      · simp at h

theorem remaining_lt_of_step {s t : Scan} (h : s.step = .ok (some t)) :
    t.remaining < s.remaining := by
  obtain ⟨rest, phase, openNodes⟩ := s
  cases phase with
  | node =>
    rw [step] at h
    cases hopen : openNode ⟨rest, .node, openNodes⟩ with
    | error e => simp [hopen, Except.map] at h
    | ok u =>
      simp only [hopen, Except.map, Except.ok.injEq, Option.some.injEq] at h
      subst h
      have hrest := rest_of_openNode hopen
      have hrank : u.phase.rank ≤ 2 := by cases u.phase <;> simp [Phase.rank]
      simp only [remaining] at hrest ⊢
      omega
  | close =>
    cases openNodes with
    | nil => simp [step] at h
    | cons n outer =>
      cases n with
      | zero =>
        rw [step] at h
        cases hclose : closeNode rest outer with
        | error e => simp [hclose, Except.map] at h
        | ok u =>
          simp only [hclose, Except.map, Except.ok.injEq, Option.some.injEq] at h
          subst h
          have hrest := rest_of_closeNode hclose
          have hrank : u.phase.rank ≤ 2 := by cases u.phase <;> simp [Phase.rank]
          simp only [remaining, Phase.rank] at hrank ⊢
          omega
      | succ n =>
        simp only [step, Except.ok.injEq, Option.some.injEq] at h
        subst h
        simp [remaining, Phase.rank]
  | dependencies count =>
    cases count with
    | zero =>
      simp only [step, Except.ok.injEq, Option.some.injEq] at h
      subst h
      simp [remaining, Phase.rank]
    | succ n =>
      simp only [step] at h
      cases hread : Reader.counted rest with
      | error e => simp [hread, bind, Except.bind] at h
      | ok p =>
        obtain ⟨out, left⟩ := p
        simp only [hread, bind, Except.bind, Except.ok.injEq, Option.some.injEq] at h
        subst h
        have hr := Reader.counted_eq_ok hread
        simp only [remaining, Phase.rank]
        omega

/-- Scan to the end of the root, with the octets left after it. -/
def finish (s : Scan) : Except Fault Octets :=
  match _h : s.step with
  | .error e => .error e
  | .ok none => .ok s.rest
  | .ok (some t) => t.finish
termination_by s.remaining
decreasing_by exact remaining_lt_of_step _h

end Scan

/-- Whether a payload holds whole nodes that do not lie too deep. -/
def checkDepth (payload : Octets) : Except Fault Unit :=
  (Scan.start payload).finish.map fun _ => ()

end ArtifactPlane.Index
