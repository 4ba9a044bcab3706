import ArtifactPlane.Path.Object

/-!
The components of a path, and its normal form.  A file system passes over the empty pieces of
a path and over each `.`, except that a path may begin at the root or at a `.`; what is left
climbs or names something.  The normal form of a path is made of its names, where there are
names and nothing climbs.  Below a directory, it leads to where those names lead from there.
-/

namespace ArtifactPlane.Path

/-- Pieces are what core leaves of a text that it splits at slashes. -/
theorem pieces_eq_splitOn (cs : List Char) : pieces cs = cs.splitOn '/' := by
  induction cs with
  | nil => rw [pieces, List.splitOn_nil]
  | cons c cs ih =>
    rw [pieces, List.splitOn_cons_eq_if_modifyHead, ← ih]
    by_cases hc : c = '/'
    · simp [hc]
    · obtain ⟨p, ps, hps⟩ := List.exists_cons_of_ne_nil (pieces_ne_nil cs)
      simp [hc, hps]

theorem joined_eq_intercalate (ps : List (List Char)) : joined ps = ['/'].intercalate ps := by
  induction ps with
  | nil => rfl
  | cons p ps ih =>
    cases ps with
    | nil => simp [joined]
    | cons q ps => rw [joined, ih, List.intercalate_cons_cons, List.append_assoc]; rfl

/-- Pieces that were joined are the pieces of the whole. -/
theorem splitOn_joined {ps : List (List Char)} (hne : ps ≠ []) (h : ∀ p ∈ ps, '/' ∉ p) :
    (joined ps).splitOn '/' = ps := by
  rw [joined_eq_intercalate]
  exact List.splitOn_intercalate '/' h hne

/-- The pieces of a path that lead somewhere, by what core splits. -/
theorem steps_eq (path : String) :
    steps path = (path.toList.splitOn '/').filter fun c => c ≠ [] ∧ c ≠ ['.'] := by
  rw [steps, pieces_eq_splitOn]
  apply List.filter_congr
  intro c _
  simp [isIdle]

/-- A piece that names something in a directory. -/
structure Ordinary (c : List Char) : Prop where
  ne_nil : c ≠ []
  ne_here : c ≠ ['.']
  ne_up : c ≠ ['.', '.']
  slash_not_mem : '/' ∉ c

theorem ordinary_of_mem_steps {path : String} {c : List Char} (hc : c ∈ steps path)
    (hup : ['.', '.'] ∉ steps path) : Ordinary c := by
  have hidle : c ≠ [] ∧ c ≠ ['.'] := by
    rw [steps_eq] at hc
    simpa using (List.mem_filter.mp hc).2
  refine ⟨hidle.1, hidle.2, fun h => hup (h ▸ hc), ?_⟩
  exact slash_not_mem_of_mem_pieces (List.mem_filter.mp hc).1

/-- A component of a path. -/
inductive Component where
  /-- The root, which an absolute path begins at. -/
  | root
  /-- A `.`, which counts only where a path begins with it. -/
  | here
  | up
  | name (text : List Char)
deriving DecidableEq

/-- The component of a piece, wherever it stands. -/
def Component.ofPiece? (c : List Char) : Option Component :=
  if c = [] ∨ c = ['.'] then none else if c = ['.', '.'] then some .up else some (.name c)

/-- Where a path begins, if that is a component of its own. -/
def lead (cs : List Char) : List Component :=
  if cs.head? = some '/' then [.root]
  else if (cs.splitOn '/').head? = some ['.'] then [.here] else []

/-- The components of the pieces of a path. -/
def inner (cs : List Char) : List Component := (cs.splitOn '/').filterMap Component.ofPiece?

/-- The components of a path. -/
def components (path : String) : List Component := lead path.toList ++ inner path.toList

example : components "//a/./b/.." = [.root, .name ['a'], .name ['b'], .up] := by decide
example : components "./." = [.here] := by decide

theorem ofPiece?_of_ordinary {c : List Char} (h : Ordinary c) :
    Component.ofPiece? c = some (.name c) := by
  simp [Component.ofPiece?, h.ne_nil, h.ne_here, h.ne_up]

theorem filterMap_ofPiece? {ps : List (List Char)} (h : ∀ c ∈ ps, Ordinary c) :
    ps.filterMap Component.ofPiece? = ps.map .name := by
  induction ps with
  | nil => rfl
  | cons c ps ih =>
    rw [List.forall_mem_cons] at h
    rw [List.filterMap_cons_some (ofPiece?_of_ordinary h.1), ih h.2, List.map_cons]

theorem splitOn_slash (cs : List Char) : ('/' :: cs).splitOn '/' = [] :: cs.splitOn '/' := by
  simp [List.splitOn_cons_eq_if_modifyHead]

/-- What consists of names does not begin with a slash, nor at a `.`. -/
theorem head?_ne_slash {cs : List Char} (h : ∀ c ∈ cs.splitOn '/', Ordinary c) :
    cs.head? ≠ some '/' := by
  intro hhead
  obtain ⟨rest, rfl⟩ := List.head?_eq_some_iff.mp hhead
  rw [splitOn_slash] at h
  exact (h [] List.mem_cons_self).ne_nil rfl

theorem lead_of_ordinary {cs : List Char} (h : ∀ c ∈ cs.splitOn '/', Ordinary c) :
    lead cs = [] := by
  rw [lead, if_neg (head?_ne_slash h), if_neg]
  intro hhead
  exact (h ['.'] (List.mem_of_head? hhead)).ne_here rfl

theorem inner_append (base cs : List Char) :
    inner (base ++ '/' :: cs) = inner base ++ inner cs := by
  rw [inner, List.splitOn_append_cons_self, List.filterMap_append]
  rfl

/-- Where a path begins is not changed by what comes after a slash. -/
theorem lead_append (base cs : List Char) :
    lead (base ++ '/' :: cs) = if base = [] then [.root] else lead base := by
  by_cases hbase : base = []
  · simp [hbase, lead]
  · obtain ⟨c, rest, hcons⟩ := List.exists_cons_of_ne_nil hbase
    obtain ⟨p, ps, hps⟩ := List.exists_cons_of_ne_nil (List.splitOn_ne_nil '/' base)
    rw [if_neg hbase, lead, lead, List.splitOn_append_cons_self, hps, hcons]
    rfl

/-- A relative path is put after the slash of the directory, or after one of its own. -/
theorem toList_under {base path : String} (hbase : base ≠ "")
    (hpath : path.toList.head? ≠ some '/') :
    ∃ dir, (base.toList = dir ∨ base.toList = dir ++ ['/']) ∧
      (under base path).toList = dir ++ '/' :: path.toList := by
  rw [under, if_neg (not_or.mpr ⟨hpath, hbase⟩)]
  by_cases hslash : base.toList.getLast? = some '/'
  · obtain ⟨dir, hdir⟩ := List.getLast?_eq_some_iff.mp hslash
    refine ⟨dir, Or.inr hdir, ?_⟩
    rw [if_pos hslash, String.toList_append, hdir, List.append_assoc]
    rfl
  · refine ⟨base.toList, Or.inl rfl, ?_⟩
    rw [if_neg hslash, String.toList_append, String.toList_append, List.append_assoc]
    rfl

/-- Below a directory, names lead on from the components of the directory. -/
theorem components_under {base path : String} (h : ∀ c ∈ path.toList.splitOn '/', Ordinary c) :
    components (under base path) = components base ++ (path.toList.splitOn '/').map .name := by
  have hpath := head?_ne_slash h
  have hinner : inner path.toList = (path.toList.splitOn '/').map .name := filterMap_ofPiece? h
  by_cases hbase : base = ""
  · rw [hbase, under, if_pos (Or.inr rfl), components, lead_of_ordinary h, hinner]
    rfl
  · obtain ⟨dir, hdir, hunder⟩ := toList_under hbase hpath
    rw [components, components, hunder, lead_append, inner_append, hinner]
    rcases hdir with hdir | hdir
    · have hne : dir ≠ [] := fun hnil => hbase (String.toList_eq_nil_iff.mp (hdir.trans hnil))
      rw [if_neg hne, hdir, List.append_assoc]
    · have hend : inner [] = [] := by simp [inner, Component.ofPiece?]
      rw [hdir, lead_append, inner_append, hend, List.append_nil, List.append_assoc]

/-- The names among components, unless one of them climbs. -/
def names? : List Component → Option (List (List Char))
  | [] => some []
  | .root :: cs => names? cs
  | .here :: cs => names? cs
  | .up :: _ => none
  | .name c :: cs => (names? cs).map (c :: ·)

/-- The normal form of a path from its components, once the slashes before it are gone. -/
def formOfComponents? (path : String) : Option String :=
  match names? (components (String.ofList (path.toList.dropWhile (· = '/')))) with
  | none => none
  | some [] => none
  | some (c :: cs) => some (String.ofList (['/'].intercalate (c :: cs)))

theorem names?_filterMap (ps : List (List Char)) :
    names? (ps.filterMap Component.ofPiece?) =
      if ['.', '.'] ∈ ps then none else some (ps.filter fun c => c ≠ [] ∧ c ≠ ['.']) := by
  induction ps with
  | nil => rfl
  | cons c ps ih =>
    by_cases hidle : c = [] ∨ c = ['.']
    · have hup : ['.', '.'] ≠ c := by rcases hidle with rfl | rfl <;> decide
      simp only [Component.ofPiece?, hidle, List.filterMap_cons, ↓reduceIte, ih]
      simp only [List.mem_cons, hup, false_or]
      rcases hidle with rfl | rfl <;> simp
    · by_cases hup : c = ['.', '.']
      · simp [Component.ofPiece?, hup, names?]
      · obtain ⟨hnil, hhere⟩ := not_or.mp hidle
        have hpiece : Component.ofPiece? c = some (.name c) := by
          simp [Component.ofPiece?, hnil, hhere, hup]
        rw [List.filterMap_cons_some hpiece, names?, ih]
        by_cases hmem : ['.', '.'] ∈ ps <;> simp [hmem, hnil, hhere, Ne.symm hup]

theorem names?_lead_append (cs : List Char) (rest : List Component) :
    names? (lead cs ++ rest) = names? rest := by
  rw [lead]
  split
  · rfl
  · split <;> rfl

/-- The slashes before a path add nothing to its components but the root. -/
theorem inner_dropWhile (cs : List Char) : inner (cs.dropWhile (· = '/')) = inner cs := by
  induction cs with
  | nil => rfl
  | cons c cs ih =>
    by_cases hc : c = '/'
    · rw [List.dropWhile_cons_of_pos (by simpa using hc), ih, hc, inner, inner, splitOn_slash]
      rfl
    · rw [List.dropWhile_cons_of_neg (by simpa using hc)]

theorem names?_components (path : String) :
    names? (components (String.ofList (path.toList.dropWhile (· = '/')))) =
      if ['.', '.'] ∈ path.toList.splitOn '/' then none else some (steps path) := by
  rw [components, names?_lead_append, String.toList_ofList, inner_dropWhile, inner,
    names?_filterMap, steps_eq]

theorem up_mem_steps_iff {path : String} :
    ['.', '.'] ∈ steps path ↔ ['.', '.'] ∈ path.toList.splitOn '/' := by
  rw [steps_eq, List.mem_filter]
  exact and_iff_left (by decide)

theorem normalForm?_eq_formOfComponents? (path : String) :
    normalForm? path = formOfComponents? path := by
  rw [normalForm?, formOfComponents?, names?_components]
  by_cases hup : ['.', '.'] ∈ path.toList.splitOn '/'
  · simp [hup, up_mem_steps_iff]
  · cases hsteps : steps path with
    | nil => simp [hup]
    | cons c cs =>
      have hnot : ['.', '.'] ∉ c :: cs := by rwa [← hsteps, up_mem_steps_iff]
      simp [hup, hnot, joined_eq_intercalate]

theorem normalForm?_eq_some_iff {path q : String} :
    normalForm? path = some q ↔
      steps path ≠ [] ∧ ['.', '.'] ∉ steps path ∧ q = String.ofList (joined (steps path)) := by
  rw [normalForm?, ← and_assoc, ← not_or]
  by_cases h : steps path = [] ∨ ['.', '.'] ∈ steps path
  · simp [h]
  · rw [if_neg h, Option.some.injEq, and_iff_right h]
    exact eq_comm

/-- The pieces of a normal form are those of the path that lead somewhere, and are names. -/
theorem splitOn_normalForm {path q : String} (h : normalForm? path = some q) :
    q.toList.splitOn '/' = steps path ∧ ∀ c ∈ steps path, Ordinary c := by
  obtain ⟨hne, hup, rfl⟩ := normalForm?_eq_some_iff.mp h
  have hordinary : ∀ c ∈ steps path, Ordinary c := fun c hc => ordinary_of_mem_steps hc hup
  rw [String.toList_ofList]
  exact ⟨splitOn_joined hne fun c hc => (hordinary c hc).slash_not_mem, hordinary⟩

theorem ordinary_of_normalForm {path q : String} (h : normalForm? path = some q) :
    ∀ c ∈ q.toList.splitOn '/', Ordinary c := by
  obtain ⟨hsplit, hordinary⟩ := splitOn_normalForm h
  rwa [hsplit]

/-- A normal form is its own normal form. -/
theorem normalForm?_of_normalForm? {path q : String} (h : normalForm? path = some q) :
    normalForm? q = some q := by
  obtain ⟨hsplit, hordinary⟩ := splitOn_normalForm h
  have hsteps : steps q = steps path := by
    rw [steps_eq, hsplit, List.filter_eq_self]
    intro c hc
    simpa using ⟨(hordinary c hc).ne_nil, (hordinary c hc).ne_here⟩
  rw [normalForm?_eq_some_iff] at h ⊢
  rwa [hsteps]

end ArtifactPlane.Path
