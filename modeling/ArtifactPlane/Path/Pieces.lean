/-!
Texts divided at slashes.  Main statements: the pieces joined by slashes are the
text again, and no piece holds a slash.
-/

namespace ArtifactPlane.Path

/-- What stands between the slashes of a text, empty pieces included. -/
def pieces : List Char → List (List Char)
  | [] => [[]]
  | c :: cs =>
    if c = '/' then [] :: pieces cs
    else
      match pieces cs with
      | [] => [[c]]
      | p :: ps => (c :: p) :: ps

/-- Pieces with a slash between each two. -/
def joined : List (List Char) → List Char
  | [] => []
  | [p] => p
  | p :: q :: ps => p ++ '/' :: joined (q :: ps)

theorem pieces_ne_nil (cs : List Char) : pieces cs ≠ [] := by
  cases cs with
  | nil => simp [pieces]
  | cons c cs =>
    rw [pieces]
    split
    · simp
    · split <;> simp

theorem joined_cons_cons (c : Char) (p : List Char) (ps : List (List Char)) :
    joined ((c :: p) :: ps) = c :: joined (p :: ps) := by
  cases ps <;> simp [joined]

theorem joined_pieces (cs : List Char) : joined (pieces cs) = cs := by
  induction cs with
  | nil => rfl
  | cons c cs ih =>
    rw [pieces]
    split
    · rename_i hc
      obtain ⟨p, ps, hps⟩ := List.exists_cons_of_ne_nil (pieces_ne_nil cs)
      rw [hps, joined, ← hps, ih, hc, List.nil_append]
    · split
      · rename_i hnil
        exact absurd hnil (pieces_ne_nil cs)
      · rename_i p ps hps
        rw [joined_cons_cons, ← hps, ih]

theorem slash_not_mem_of_mem_pieces {cs p : List Char} (h : p ∈ pieces cs) : '/' ∉ p := by
  induction cs generalizing p with
  | nil => simp_all [pieces]
  | cons c cs ih =>
    rw [pieces] at h
    split at h
    · rcases List.mem_cons.mp h with rfl | h
      · simp
      · exact ih h
    · rename_i hc
      split at h
      · rename_i hnil
        exact absurd hnil (pieces_ne_nil cs)
      · rename_i q ps hps
        rcases List.mem_cons.mp h with rfl | h
        · have hq : '/' ∉ q := ih (hps ▸ List.mem_cons_self)
          simp [hq, Ne.symm hc]
        · exact ih (hps ▸ List.mem_cons_of_mem q h)

end ArtifactPlane.Path
