import ArtifactPlane.Error

/-!
A load in progress.  Whoever runs the load holds the only handle that can record its
result; every caller that waits for it is given the same one.  When the handle is
given up without a result, each caller is told that the load of its key was aborted.
-/

namespace ArtifactPlane

/-- What a load delivers. -/
abbrev Loaded := Except Error Octets

/-- A load in progress, or one that has ended. -/
structure Call where
  result : Option Loaded
  /-- Whether the handle that records the result still exists. -/
  isOpen : Bool
deriving Inhabited

namespace Call

/-- A load that has just begun. -/
def new : Call := ⟨none, true⟩

/-- Whether a result was recorded. -/
def isComplete (c : Call) : Bool := c.result.isSome

/-- Record the result and give the handle up. -/
def complete (c : Call) (r : Loaded) : Call :=
  if c.isOpen then ⟨some r, false⟩ else c

/-- Give the handle up without a result. -/
def abort (c : Call) : Call := { c with isOpen := false }

/-- What a caller that waits for a key is given, once there is anything to give. -/
def outcome? (c : Call) (key : String) : Option Loaded :=
  match c.result with
  | some r => some r
  | none => if c.isOpen then none else some (.error (.ofCause key .loadAborted))

/-- A recorded result is never replaced. -/
theorem result_complete_complete (c : Call) (r s : Loaded) :
    ((c.complete r).complete s) = c.complete r := by
  unfold complete
  split <;> simp_all

end Call

/-- Callers that wait, each by its name with what it waits for, divided into those
that are given something and those that go on waiting. -/
def settle {ν α β : Type} (outcome? : α → Option β) (waiting : List (ν × α)) :
    List (ν × β) × List (ν × α) :=
  (waiting.filterMap fun w => (outcome? w.2).map fun r => (w.1, r),
    waiting.filter fun w => (outcome? w.2).isNone)

end ArtifactPlane
