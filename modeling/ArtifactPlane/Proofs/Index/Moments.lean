import Mathlib.Logic.Function.Iterate
import ArtifactPlane.Proofs.Index.Reads
import ArtifactPlane.Index.Scan

/-!
The scan at every moment.  A step of the scan reads several words and texts; here it goes from
one read to the next, and counts what it has met.  A count that it reads may be any word, so
nothing is won by counting down: each turn takes octets or passes to a turn of lower rank.
Whatever is counted has taken its share of octets already, and no more nodes are open than the
limit and one.
-/

namespace ArtifactPlane.Index

theorem Scan.finish_eq (s : Scan) : s.finish = match s.step with
    | .error fault => .error fault
    | .ok none => .ok s.rest
    | .ok (some t) => t.finish := by
  rw [Scan.finish]
  split <;> simp_all

/-- A text that is passed over. -/
inductive Passage where
  | segment
  | date
  | place
  /-- A dependency, with how many come after it. -/
  | source (left : Nat)
deriving DecidableEq, Repr

/-- What comes next. -/
inductive Turn where
  /-- The number of octets of a text. -/
  | size (p : Passage)
  /-- The octets of a text. -/
  | skip (p : Passage) (n : Nat)
  /-- The number of children of a node, which is then open. -/
  | children
  /-- Whether too many nodes are open, just after one was opened. -/
  | measure
  /-- Whether the innermost open node has children to come. -/
  | look
  /-- The tag of an artifact, once its node is closed. -/
  | tag
  /-- The number of dependencies. -/
  | total
  | sources (left : Nat)
  | ended (verdict : Except Fault Unit)

def Turn.HasEnded (t : Turn) : Prop := ∃ verdict, t = .ended verdict

/-- A scan between two reads, with what it has met so far. -/
structure Moment where
  rest : Octets
  turn : Turn
  /-- Children still to come for each open node, the innermost first. -/
  openNodes : List Nat
  nodes : Nat
  tags : Nat
  sources : Nat

/-- What follows the tag of an artifact. -/
def Turn.ofTag (tag : UInt8) : Turn :=
  if tag = 0 then .look
  else if tag = 1 then .size .date
  else .ended (.error (.artifactTag tag))

namespace Moment

/-- Before the first octet. -/
def start (payload : Octets) : Moment := ⟨payload, .size .segment, [], 0, 0, 0⟩

/-- Go on with what is read, or end with its fault. -/
def reading {α : Type} (m : Moment) (read : Reader α) (next : α → Moment → Moment) : Moment :=
  match read m.rest with
  | .ok (a, rest) => next a { m with rest }
  | .error fault => { m with turn := .ended (.error fault) }

/-- A text has been passed. -/
def passed (m : Moment) : Passage → Moment
  | .segment => { m with turn := .children }
  | .date => { m with turn := .size .place }
  | .place => { m with turn := .total }
  | .source left => { m with turn := .sources left, sources := m.sources + 1 }

/-- One read, or one look at the open nodes. -/
def step (m : Moment) : Moment :=
  match m.turn with
  | .size p => m.reading Reader.word fun n m => { m with turn := .skip p n }
  | .skip p n => m.reading (Reader.octets n) fun _ m => m.passed p
  | .children => m.reading Reader.word fun n m =>
    { m with turn := .measure, openNodes := n :: m.openNodes, nodes := m.nodes + 1 }
  | .measure =>
    if maxDepth < m.openNodes.length then { m with turn := .ended (.error .tooDeep) }
    else { m with turn := .look }
  | .look =>
    match m.openNodes with
    | [] => { m with turn := .ended (.ok ()) }
    | 0 :: outer => { m with turn := .tag, openNodes := outer }
    | (n + 1) :: outer => { m with turn := .size .segment, openNodes := n :: outer }
  | .tag => m.reading Reader.octet fun tag m =>
    { m with turn := .ofTag tag, tags := m.tags + 1 }
  | .total => m.reading Reader.word fun n m => { m with turn := .sources n }
  | .sources 0 => { m with turn := .look }
  | .sources (n + 1) => { m with turn := .size (.source n) }
  | .ended _ => m

section

variable {m : Moment} {p : Passage} {n : Nat}

theorem step_size (h : m.turn = .size p) :
    m.step = m.reading Reader.word fun n m => { m with turn := .skip p n } := by
  simp only [step, h]

theorem step_skip (h : m.turn = .skip p n) :
    m.step = m.reading (Reader.octets n) fun _ m => m.passed p := by
  simp only [step, h]

theorem step_children (h : m.turn = .children) : m.step = m.reading Reader.word fun n m =>
    { m with turn := .measure, openNodes := n :: m.openNodes, nodes := m.nodes + 1 } := by
  simp only [step, h]

theorem step_measure (h : m.turn = .measure) :
    m.step = { m with turn := if maxDepth < m.openNodes.length then .ended (.error .tooDeep)
      else .look } := by
  simp only [step, h]
  split <;> rfl

theorem step_tag (h : m.turn = .tag) : m.step = m.reading Reader.octet fun tag m =>
    { m with turn := .ofTag tag, tags := m.tags + 1 } := by
  simp only [step, h]

theorem step_of_hasEnded (h : m.turn.HasEnded) : m.step = m := by
  obtain ⟨verdict, hturn⟩ := h
  simp only [step, hturn]

theorem step_total (h : m.turn = .total) :
    m.step = m.reading Reader.word fun n m => { m with turn := .sources n } := by
  simp only [step, h]

end

/-- A payload after some turns. -/
def after (n : Nat) (payload : Octets) : Moment := step^[n] (start payload)

end Moment

namespace Turn

/-- Octets that were taken for what is not counted yet. -/
@[simp]
def credit : Turn → Nat
  | .skip .segment _ => 8
  | .skip (.source _) _ => 8
  | .children => 8
  | _ => 0

/-- How many nodes may be open beyond the limit. -/
@[simp]
def slack : Turn → Nat
  | .measure => 1
  | .ended _ => 1
  | _ => 0

/-- How much is left to do without taking octets. -/
@[simp]
def rank : Turn → Nat
  | .ended _ => 0
  | .size _ => 1
  | .children => 1
  | .tag => 1
  | .total => 1
  | .look => 2
  | .measure => 3
  | .sources _ => 3
  | .skip _ _ => 4

/-- The turn with which a phase of the scan begins. -/
def ofPhase : Phase → Turn
  | .node => .size .segment
  | .close => .look
  | .dependencies n => .sources n

theorem slack_le_one (t : Turn) : t.slack ≤ 1 := by
  cases t <;> simp

theorem rank_pos {t : Turn} (h : ¬ t.HasEnded) : 0 < t.rank := by
  cases t with
  | ended verdict => exact absurd ⟨verdict, rfl⟩ h
  | _ => simp

end Turn

/-- Two steps fail where the first of them does, or the second after it. -/
theorem bind_eq_error {σ ε α β : Type} {read : StateT σ (Except ε) α}
    {next : α → StateT σ (Except ε) β} {s : σ} {fault : ε} :
    (read >>= next) s = .error fault ↔
      read s = .error fault ∨ ∃ a left, read s = .ok (a, left) ∧ next a left = .error fault := by
  simp only [bind, StateT.bind, Except.bind]
  cases read s with
  | error other => simp
  | ok p =>
    obtain ⟨a, left⟩ := p
    simp [and_assoc]

/-- A fault that the scan can find. -/
inductive Fault.OfScan : Fault → Prop
  | truncated : OfScan .truncated
  | tooDeep : OfScan .tooDeep
  | artifactTag (tag : UInt8) : OfScan (.artifactTag tag)

namespace Moment

/-- The octets that were taken at least, by what was counted. -/
def cost (m : Moment) : Nat := 16 * m.nodes + m.tags + 8 * m.sources

/-- The measure that every turn lowers. -/
def weight (m : Moment) : Nat := 4 * m.rest.length + m.turn.rank

/-- What one turn does. -/
structure Turns (m n : Moment) : Prop where
  /-- It takes as much as it counts. -/
  takes : ∃ front, m.rest = front ++ n.rest ∧
    n.cost + n.turn.credit ≤ m.cost + m.turn.credit + front.length
  opens : m.openNodes.length ≤ maxDepth + m.turn.slack →
    n.openNodes.length ≤ maxDepth + n.turn.slack
  faults : ∀ fault, n.turn = .ended (.error fault) →
    m.turn = .ended (.error fault) ∨ fault.OfScan
  lowers : ¬ m.turn.HasEnded → n.weight < m.weight

variable {m : Moment}

/-- A reader of the scan takes forms of one length at least and fails only at the end. -/
structure Scans {α : Type} (read : Reader α) (size : α → Nat) : Prop where
  takes : ∀ bs a rest, read bs = .ok (a, rest) → ∃ front, bs = front ++ rest ∧
    front.length = size a
  fails : ∀ bs fault, read bs = .error fault → fault = .truncated

theorem octets_eq_error {n : Nat} {bs : Octets} {fault : Fault}
    (h : Reader.octets n bs = .error fault) : fault = .truncated := by
  induction n generalizing bs with
  | zero => simp [Reader.octets] at h
  | succ n ih =>
    cases bs with
    | nil => exact (Except.error.inj h).symm
    | cons b bs =>
      cases hrest : Reader.octets n bs with
      | ok p => simp [Reader.octets, hrest, bind, Except.bind] at h
      | error other =>
        simp only [Reader.octets, hrest, bind, Except.bind, Except.error.injEq] at h
        exact h ▸ ih (h ▸ hrest)

theorem scans_octets (n : Nat) : Scans (Reader.octets n) fun _ => n where
  takes _ out _ h := ⟨out, Reader.octets_eq_ok h⟩
  fails _ _ h := octets_eq_error h

theorem scans_word : Scans Reader.word fun _ => 8 where
  takes bs n rest h := by
    obtain ⟨front, rfl, -, rfl⟩ := (Reader.reads_word _ _ _).mp h
    exact ⟨word n, rfl, length_word n⟩
  fails bs fault h := by
    obtain hoctets | ⟨_, _, -, hend⟩ := bind_eq_error.mp h
    · exact octets_eq_error hoctets
    · cases hend

theorem scans_octet : Scans Reader.octet fun _ => 1 where
  takes bs b rest h := by
    obtain ⟨front, rfl, rfl⟩ := (Reader.reads_octet _ _ _).mp h
    exact ⟨[b], rfl, rfl⟩
  fails bs fault h := by
    cases bs with
    | nil => exact (Except.error.inj h).symm
    | cons b bs => exact nomatch h

/-- A turn takes what it counts, and is followed by one of lower rank unless it takes more. -/
theorem turns_of_taken {n : Moment} {front : Octets} (hrest : m.rest = front ++ n.rest)
    (hcost : n.cost + n.turn.credit ≤ m.cost + m.turn.credit + front.length)
    (hopen : m.openNodes.length ≤ maxDepth + m.turn.slack →
      n.openNodes.length ≤ maxDepth + n.turn.slack)
    (hfault : ∀ fault, n.turn = .ended (.error fault) → fault.OfScan)
    (hrank : n.turn.rank < 4 * front.length + m.turn.rank) : m.Turns n := by
  refine ⟨⟨front, hrest, hcost⟩, hopen, fun fault h => .inr (hfault fault h), fun _ => ?_⟩
  rw [weight, weight, hrest, List.length_append]
  omega

/-- A turn that takes nothing is followed by one of lower rank. -/
theorem turns_of_idle {n : Moment} (hrest : n.rest = m.rest)
    (hcost : n.cost + n.turn.credit ≤ m.cost + m.turn.credit)
    (hopen : m.openNodes.length ≤ maxDepth + m.turn.slack →
      n.openNodes.length ≤ maxDepth + n.turn.slack)
    (hfault : ∀ fault, n.turn = .ended (.error fault) → fault.OfScan)
    (hrank : n.turn.rank < m.turn.rank) : m.Turns n :=
  turns_of_taken (hrest.symm.trans (List.nil_append _).symm) hcost hopen hfault
    (by rwa [List.length_nil, Nat.mul_zero, Nat.zero_add])

/-- The scan may always end with a fault of its own. -/
theorem turns_of_fault {fault : Fault} (hfault : fault.OfScan) (hlive : ¬ m.turn.HasEnded) :
    m.Turns { m with turn := .ended (.error fault) } := by
  have hslack := m.turn.slack_le_one
  refine turns_of_idle rfl ?_ ?_ ?_ (Turn.rank_pos hlive)
  · exact Nat.add_le_add_left (Nat.zero_le _) _
  · exact fun hopen => Nat.le_trans hopen (Nat.add_le_add_left hslack _)
  · rintro _ ⟨⟩
    exact hfault

/-- A turn that reads does what is to be done with what was read, or finds the payload
truncated. -/
theorem turns_reading {α : Type} {read : Reader α} {size : α → Nat} {next : α → Moment → Moment}
    (hread : Scans read size) (hlive : ¬ m.turn.HasEnded)
    (hnext : ∀ a front rest, m.rest = front ++ rest → front.length = size a →
      m.Turns (next a { m with rest })) : m.Turns (m.reading read next) := by
  rw [reading]
  cases hfound : read m.rest with
  | ok p =>
    obtain ⟨a, rest⟩ := p
    obtain ⟨front, hrest, hsize⟩ := hread.takes _ _ _ hfound
    exact hnext a front rest hrest hsize
  | error fault =>
    obtain rfl := hread.fails _ _ hfound
    exact turns_of_fault .truncated hlive

theorem turns_passed {p : Passage} {n : Nat} {front rest : Octets} (hturn : m.turn = .skip p n)
    (hrest : m.rest = front ++ rest) : m.Turns (({ m with rest } : Moment).passed p) := by
  cases p
  all_goals
    refine turns_of_taken hrest ?_ ?_ ?_ ?_
    all_goals simp [passed, cost, hturn] <;> omega

theorem turns_tag {tag : UInt8} {front rest : Octets} (hturn : m.turn = .tag)
    (hrest : m.rest = front ++ rest) (hsize : front.length = 1) :
    m.Turns { m with rest, turn := .ofTag tag, tags := m.tags + 1 } := by
  rw [Turn.ofTag]
  split
  · refine turns_of_taken hrest ?_ ?_ ?_ ?_
    all_goals simp [cost, hturn] <;> omega
  · split
    · refine turns_of_taken hrest ?_ ?_ ?_ ?_
      all_goals simp [cost, hturn] <;> omega
    · refine turns_of_taken hrest ?_ ?_ (fun fault h => ?_) ?_
      · simp [cost, hturn, hsize]
        omega
      · simp [hturn]
        omega
      · obtain rfl : .artifactTag tag = fault := by simpa using h
        exact .artifactTag tag
      · simp [hturn, hsize]

theorem turns_look (hturn : m.turn = .look) : m.Turns m.step := by
  simp only [step, hturn]
  split
  · refine turns_of_idle rfl ?_ ?_ ?_ ?_
    all_goals simp [cost, hturn]
    omega
  all_goals
    rename_i hopen
    refine turns_of_idle rfl ?_ ?_ ?_ ?_
    all_goals simp [cost, hopen, hturn] <;> omega

theorem turns_step (m : Moment) : m.Turns m.step := by
  cases hturn : m.turn with
  | size p =>
    rw [step_size hturn]
    refine turns_reading scans_word (by simp [hturn, Turn.HasEnded]) ?_
    intro n front rest hrest hsize
    refine turns_of_taken hrest ?_ ?_ ?_ ?_
    all_goals cases p <;> simp [cost, hturn] <;> omega
  | skip p n =>
    rw [step_skip hturn]
    refine turns_reading (scans_octets n) (by simp [hturn, Turn.HasEnded]) ?_
    intro _ _ _ hrest _
    exact turns_passed hturn hrest
  | children =>
    rw [step_children hturn]
    refine turns_reading scans_word (by simp [hturn, Turn.HasEnded]) ?_
    intro n front rest hrest hsize
    refine turns_of_taken hrest ?_ ?_ ?_ ?_
    all_goals simp [cost, hturn] <;> omega
  | measure =>
    rw [step_measure hturn]
    split
    · exact turns_of_fault .tooDeep (by simp [hturn, Turn.HasEnded])
    · refine turns_of_idle rfl ?_ ?_ ?_ ?_
      all_goals simp [cost, hturn] <;> omega
  | look => exact turns_look hturn
  | tag =>
    rw [step_tag hturn]
    refine turns_reading scans_octet (by simp [hturn, Turn.HasEnded]) ?_
    intro tag _ _ hrest hsize
    exact turns_tag hturn hrest hsize
  | total =>
    rw [step_total hturn]
    refine turns_reading scans_word (by simp [hturn, Turn.HasEnded]) ?_
    intro n front rest hrest hsize
    refine turns_of_taken hrest ?_ ?_ ?_ ?_
    all_goals simp [cost, hturn] <;> omega
  | sources left =>
    cases left
    all_goals
      simp only [step, hturn]
      refine turns_of_idle rfl ?_ ?_ ?_ ?_
      all_goals simp [cost, hturn]
  | ended verdict =>
    simp only [step, hturn]
    exact ⟨⟨[], rfl, Nat.le_refl _⟩, id, fun _ h => .inl h, fun h => absurd ⟨verdict, hturn⟩ h⟩

theorem after_succ (n : Nat) (payload : Octets) :
    after (n + 1) payload = (after n payload).step :=
  Function.iterate_succ_apply' step n (start payload)

/-- What holds at every moment of a scan. -/
structure Bounded (payload : Octets) (m : Moment) : Prop where
  /-- What was counted was paid for with octets of the payload. -/
  takes : ∃ front, payload = front ++ m.rest ∧ m.cost + m.turn.credit ≤ front.length
  opens : m.openNodes.length ≤ maxDepth + m.turn.slack
  faults : ∀ fault, m.turn = .ended (.error fault) → fault.OfScan

theorem bounded_after (n : Nat) (payload : Octets) : (after n payload).Bounded payload := by
  induction n with
  | zero => exact ⟨⟨[], rfl, Nat.le_refl 0⟩, Nat.zero_le _, fun _ h => nomatch h⟩
  | succ n ih =>
    have hturns := (after n payload).turns_step
    rw [after_succ]
    obtain ⟨front, hfront, hpaid⟩ := ih.takes
    obtain ⟨more, hmore, hcost⟩ := hturns.takes
    refine ⟨⟨front ++ more, ?_, ?_⟩, hturns.opens ih.opens, fun fault h => ?_⟩
    · rw [List.append_assoc, ← hmore, ← hfront]
    · rw [List.length_append]
      omega
    · exact (hturns.faults fault h).elim (ih.faults fault) id

theorem iterate_of_hasEnded (h : m.turn.HasEnded) (n : Nat) : step^[n] m = m :=
  Function.iterate_fixed (step_of_hasEnded h) n

/-- As many turns as a moment weighs bring it to its end. -/
theorem hasEnded_iterate {n : Nat} (h : m.weight ≤ n) : (step^[n] m).turn.HasEnded := by
  induction n generalizing m with
  | zero =>
    by_contra hlive
    have hrank := Turn.rank_pos hlive
    rw [weight] at h
    exact absurd h (by simp only [Function.iterate_zero, id_eq] at hrank; omega)
  | succ n ih =>
    by_cases hended : m.turn.HasEnded
    · rwa [iterate_of_hasEnded hended]
    · have hlower := m.turns_step.lowers hended
      rw [Function.iterate_succ_apply]
      exact ih (by omega)

theorem weight_start (payload : Octets) : (start payload).weight = 4 * payload.length + 1 := rfl

/-- Turns end with a rest or with a fault. -/
inductive Ends : Moment → Except Fault Octets → Prop
  | done {m : Moment} (h : m.turn = .ended (.ok ())) : Ends m (.ok m.rest)
  | failed {m : Moment} {fault : Fault} (h : m.turn = .ended (.error fault)) :
    Ends m (.error fault)
  | later {m : Moment} {out : Except Fault Octets} (h : Ends m.step out) : Ends m out

/-- A moment at which a step of the scan begins. -/
structure Shows (m : Moment) (s : Scan) : Prop where
  rest : m.rest = s.rest
  openNodes : m.openNodes = s.openNodes
  turn : m.turn = .ofPhase s.phase

theorem ends_of_reads {α : Type} {read : Reader α} {next : α → Moment → Moment} {a : α}
    {rest : Octets} {out : Except Fault Octets} (hstep : m.step = m.reading read next)
    (hread : read m.rest = .ok (a, rest)) (h : (next a { m with rest }).Ends out) :
    m.Ends out := by
  refine .later ?_
  rwa [hstep, reading, hread]

theorem ends_of_fault {α : Type} {read : Reader α} {next : α → Moment → Moment} {fault : Fault}
    (hstep : m.step = m.reading read next) (hread : read m.rest = .error fault) :
    m.Ends (.error fault) := by
  refine .later (.failed ?_)
  rw [hstep, reading, hread]

theorem ends_of_counted {p : Passage} {text rest : Octets} {out : Except Fault Octets}
    (hturn : m.turn = .size p) (hread : Reader.counted m.rest = .ok (text, rest))
    (h : (({ m with rest } : Moment).passed p).Ends out) : m.Ends out := by
  obtain ⟨n, left, hword, htext⟩ := bind_eq_ok.mp hread
  exact ends_of_reads (step_size hturn) hword (ends_of_reads (step_skip rfl) htext h)

theorem ends_of_counted_fault {p : Passage} {fault : Fault} (hturn : m.turn = .size p)
    (hread : Reader.counted m.rest = .error fault) : m.Ends (.error fault) := by
  obtain hword | ⟨n, left, hword, htext⟩ := bind_eq_error.mp hread
  · exact ends_of_fault (step_size hturn) hword
  · exact ends_of_reads (step_size hturn) hword (ends_of_fault (step_skip rfl) htext)

theorem ends_of_deep (hturn : m.turn = .measure) (h : maxDepth < m.openNodes.length) :
    m.Ends (.error .tooDeep) := by
  refine .later (.failed ?_)
  rw [step_measure hturn, if_pos h]

theorem ends_of_measured {out : Except Fault Octets} (hturn : m.turn = .measure)
    (h : m.openNodes.length ≤ maxDepth) (hnext : ({ m with turn := .look } : Moment).Ends out) :
    m.Ends out := by
  refine .later ?_
  rwa [step_measure hturn, if_neg (Nat.not_lt_of_le h)]

/-- Opening a node is a step of the scan. -/
theorem ends_node (hturn : m.turn = .size .segment)
    (hnext : ∀ (n : Moment) (t : Scan), Scan.step ⟨m.rest, .node, m.openNodes⟩ = .ok (some t) →
      n.Shows t → n.Ends t.finish) : m.Ends (Scan.mk m.rest .node m.openNodes).finish := by
  rw [Scan.finish_eq]
  simp only [Scan.step, Scan.openNode, bind, Except.bind, Except.map] at hnext ⊢
  cases hsegment : Reader.counted m.rest with
  | error fault => exact ends_of_counted_fault hturn hsegment
  | ok p =>
    obtain ⟨segment, left⟩ := p
    simp only [hsegment] at hnext ⊢
    cases hcount : Reader.word left with
    | error fault => exact ends_of_counted hturn hsegment (ends_of_fault (step_children rfl) hcount)
    | ok q =>
      obtain ⟨count, rest⟩ := q
      simp only [hcount] at hnext ⊢
      refine ends_of_counted hturn hsegment (ends_of_reads (step_children rfl) hcount ?_)
      by_cases hdeep : maxDepth ≤ m.openNodes.length
      · rw [if_pos hdeep]
        exact ends_of_deep rfl (Nat.lt_succ_of_le hdeep)
      · rw [if_neg hdeep]
        simp only [if_neg hdeep] at hnext
        exact ends_of_measured rfl (Nat.lt_of_not_le hdeep) (hnext _ _ rfl ⟨rfl, rfl, rfl⟩)

/-- Closing the innermost node is a step of the scan. -/
theorem ends_artifact (hturn : m.turn = .tag)
    (hnext : ∀ (n : Moment) (t : Scan), Scan.closeNode m.rest m.openNodes = .ok t → n.Shows t →
      n.Ends t.finish) :
    m.Ends ((Scan.closeNode m.rest m.openNodes).bind Scan.finish) := by
  simp only [Scan.closeNode, bind, Except.bind] at hnext ⊢
  cases htag : Reader.octet m.rest with
  | error fault => exact ends_of_fault (step_tag hturn) htag
  | ok p =>
    obtain ⟨tag, left⟩ := p
    simp only [htag] at hnext ⊢
    refine ends_of_reads (step_tag hturn) htag ?_
    by_cases hzero : tag = 0
    · simp only [Turn.ofTag, if_pos hzero] at hnext ⊢
      exact hnext _ _ rfl ⟨rfl, rfl, rfl⟩
    · by_cases hone : tag = 1
      · simp only [Turn.ofTag, if_neg hzero, if_pos hone] at hnext ⊢
        cases hdate : Reader.counted left with
        | error fault => exact ends_of_counted_fault rfl hdate
        | ok q =>
          obtain ⟨date, left⟩ := q
          simp only [hdate] at hnext ⊢
          refine ends_of_counted rfl hdate ?_
          cases hplace : Reader.counted left with
          | error fault => exact ends_of_counted_fault rfl hplace
          | ok q =>
            obtain ⟨place, left⟩ := q
            simp only [hplace] at hnext ⊢
            refine ends_of_counted rfl hplace ?_
            cases htotal : Reader.word left with
            | error fault => exact ends_of_fault (step_total rfl) htotal
            | ok q =>
              obtain ⟨count, rest⟩ := q
              simp only [htotal] at hnext ⊢
              exact ends_of_reads (step_total rfl) htotal (hnext _ _ rfl ⟨rfl, rfl, rfl⟩)
      · simp only [Turn.ofTag, if_neg hzero, if_neg hone]
        exact .failed rfl

/-- A step of the scan at the innermost open node. -/
theorem ends_close (hturn : m.turn = .look)
    (hnext : ∀ (n : Moment) (t : Scan), Scan.step ⟨m.rest, .close, m.openNodes⟩ = .ok (some t) →
      n.Shows t → n.Ends t.finish) : m.Ends (Scan.mk m.rest .close m.openNodes).finish := by
  rw [Scan.finish_eq]
  refine .later ?_
  simp only [Scan.step] at hnext ⊢
  simp only [step, hturn]
  cases hopen : m.openNodes with
  | nil => exact .done rfl
  | cons count outer =>
    rw [hopen] at hnext
    cases count with
    | zero =>
      have hclosed := ends_artifact (m := { m with turn := .tag, openNodes := outer }) rfl
      simp only at hnext hclosed ⊢
      cases hclose : Scan.closeNode m.rest outer with
      | error fault =>
        rw [hclose] at hclosed
        exact hclosed fun _ _ h => nomatch h
      | ok t =>
        rw [hclose] at hclosed hnext
        exact hclosed fun n _ h hn => hnext n _ (congrArg (Except.map some) h) hn
    | succ count => exact hnext _ _ rfl ⟨rfl, rfl, rfl⟩

/-- A step of the scan at a dependency, or after the last one. -/
theorem ends_dependencies {count : Nat} (hturn : m.turn = .sources count)
    (hnext : ∀ (n : Moment) (t : Scan),
      Scan.step ⟨m.rest, .dependencies count, m.openNodes⟩ = .ok (some t) →
      n.Shows t → n.Ends t.finish) :
    m.Ends (Scan.mk m.rest (.dependencies count) m.openNodes).finish := by
  rw [Scan.finish_eq]
  refine .later ?_
  cases count with
  | zero =>
    simp only [step, hturn]
    exact hnext _ _ rfl ⟨rfl, rfl, rfl⟩
  | succ count =>
    simp only [Scan.step, bind, Except.bind] at hnext ⊢
    simp only [step, hturn]
    cases hsource : Reader.counted m.rest with
    | error fault => exact ends_of_counted_fault rfl hsource
    | ok p =>
      obtain ⟨source, rest⟩ := p
      rw [hsource] at hnext
      exact ends_of_counted rfl hsource (hnext _ _ rfl ⟨rfl, rfl, rfl⟩)

theorem ends_step {s : Scan} (hm : m.Shows s)
    (hnext : ∀ (n : Moment) (t : Scan), s.step = .ok (some t) → n.Shows t → n.Ends t.finish) :
    m.Ends s.finish := by
  obtain ⟨rest, phase, openNodes⟩ := s
  obtain ⟨rfl, rfl, hturn⟩ := hm
  cases phase with
  | node => exact ends_node hturn hnext
  | close => exact ends_close hturn hnext
  | dependencies count => exact ends_dependencies hturn hnext

/-- Turns end as the scan does. -/
theorem ends_finish {s : Scan} (hm : m.Shows s) : m.Ends s.finish := by
  induction hweight : s.remaining using Nat.strongRecOn generalizing m s with
  | ind remaining ih =>
    refine ends_step hm fun n t hstep hn => ?_
    exact ih t.remaining (hweight ▸ Scan.remaining_lt_of_step hstep) hn rfl

theorem Ends.step {out : Except Fault Octets} (h : m.Ends out) : m.step.Ends out := by
  cases h with
  | later h => exact h
  | done hturn =>
    rw [step_of_hasEnded ⟨_, hturn⟩]
    exact .done hturn
  | failed hturn =>
    rw [step_of_hasEnded ⟨_, hturn⟩]
    exact .failed hturn

/-- However many turns were made, the end is the same. -/
theorem ends_after (n : Nat) (payload : Octets) :
    (after n payload).Ends (Scan.start payload).finish := by
  induction n with
  | zero => exact ends_finish ⟨rfl, rfl, rfl⟩
  | succ n ih =>
    rw [after_succ]
    exact ih.step

theorem Ends.eq_of_ended {out : Except Fault Octets} {verdict : Except Fault Unit}
    (h : m.Ends out) (hturn : m.turn = .ended verdict) :
    out = verdict.map fun _ => m.rest := by
  induction h with
  | done h =>
    obtain rfl := Turn.ended.inj (h.symm.trans hturn)
    rfl
  | failed h =>
    obtain rfl := Turn.ended.inj (h.symm.trans hturn)
    rfl
  | later h ih =>
    rw [step_of_hasEnded ⟨_, hturn⟩] at ih
    exact ih hturn

/-- Four turns for each octet and one more are enough, and they end as the scan does. -/
theorem ended_after {n : Nat} {payload : Octets} (h : 4 * payload.length + 1 ≤ n) :
    (after n payload).turn = .ended (checkDepth payload) ∧
      (Scan.start payload).finish = (checkDepth payload).map fun _ => (after n payload).rest := by
  have hweight : (start payload).weight ≤ n := by rwa [weight_start]
  obtain ⟨verdict, hturn⟩ := hasEnded_iterate hweight
  have hends := (ends_after n payload).eq_of_ended hturn
  have hverdict : checkDepth payload = verdict := by
    rw [checkDepth, hends]
    cases verdict <;> rfl
  rw [hverdict]
  exact ⟨hturn, hends⟩

end Moment

end ArtifactPlane.Index
