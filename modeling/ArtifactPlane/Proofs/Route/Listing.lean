import ArtifactPlane.Proofs.Route.Lookup
import Mathlib.Data.List.Nodup

/-!
The entries of a route tree: the chains of segments that lead to artifacts, each node
before its children.  Main statements: the walks over a tree list and count its entries,
and lookup agrees with them if and only if, at every node, a child that leads to an
artifact has a segment of its own that could stand in a path.
-/

namespace ArtifactPlane.RouteTree

/-- An entry of a node, from the node above it. -/
def under (segment : String) (e : List String × Artifact) : List String × Artifact :=
  (segment :: e.1, e.2)

mutual

/-- Every chain of segments that leads to an artifact, with that artifact, each node
before its children and siblings in order. -/
def entries : RouteTree → List (List String × Artifact)
  | ⟨_, children, artifact⟩ => artifact.toList.map (fun a => ([], a)) ++ entriesBelow children

/-- The entries of some siblings, from the node above them. -/
def entriesBelow : List RouteTree → List (List String × Artifact)
  | [] => []
  | t :: ts => (entries t).map (under t.segment) ++ entriesBelow ts

end

theorem entries_eq (t : RouteTree) :
    t.entries = t.artifact.toList.map (fun a => ([], a)) ++ entriesBelow t.children := by
  obtain ⟨segment, children, artifact⟩ := t
  rw [entries]

theorem mem_entriesBelow {ts : List RouteTree} {e : List String × Artifact} :
    e ∈ entriesBelow ts ↔ ∃ t ∈ ts, e ∈ t.entries.map (under t.segment) := by
  induction ts with
  | nil => simp [entriesBelow]
  | cons t ts ih =>
    simp only [entriesBelow, List.mem_append, ih, List.mem_cons, or_and_right, exists_or,
      exists_eq_left]

@[simp]
theorem nil_mem_entries {t : RouteTree} {a : Artifact} :
    ([], a) ∈ t.entries ↔ t.artifact = some a := by
  rw [entries_eq t]
  simp [mem_entriesBelow, under]

@[simp]
theorem cons_mem_entries {t : RouteTree} {s : String} {ss : List String} {a : Artifact} :
    (s :: ss, a) ∈ t.entries ↔ ∃ c ∈ t.children, c.segment = s ∧ (ss, a) ∈ c.entries := by
  simp only [entries_eq t, List.mem_append, mem_entriesBelow, List.mem_map, under, Prod.mk.injEq,
    List.cons.injEq, reduceCtorEq, false_and, and_false, exists_false, false_or, Prod.exists]
  constructor
  · rintro ⟨c, hc, xs, b, hx, ⟨rfl, rfl⟩, rfl⟩
    exact ⟨c, hc, rfl, hx⟩
  · rintro ⟨c, hc, rfl, hx⟩
    exact ⟨c, hc, ss, a, hx, ⟨rfl, rfl⟩, rfl⟩

/-- A chain of segments as a path. -/
def written (ss : List String) : String :=
  "/" ++ "/".intercalate ss

/-- A text followed by some segments, each after a slash. -/
def trail (above : String) (ss : List String) : String :=
  ss.foldl (fun above s => above ++ "/" ++ s) above

theorem trail_cons_eq (above s : String) (ss : List String) :
    trail above (s :: ss) = above ++ "/" ++ "/".intercalate (s :: ss) := by
  induction ss generalizing above s with
  | nil => simp [trail]
  | cons x xs ih =>
    have h := ih (above ++ "/" ++ s) x
    rw [trail, List.foldl_cons, ← trail, h, String.intercalate_cons_cons]
    simp only [String.append_assoc]

/-- The walk writes a chain that leads down from the root as a path. -/
theorem written_eq_trail (ss : List String) :
    (if (trail "" ss).isEmpty then "/" else trail "" ss) = written ss := by
  cases ss with
  | nil => rfl
  | cons s ss => simp [trail_cons_eq, written]

theorem toList_written (ss : List String) :
    (written ss).toList = '/' :: List.intercalate ['/'] (ss.map String.toList) := by
  simp [written]

/-- A chain of proper segments can be read off its path. -/
theorem segments_written {ss : List String} (h : ∀ s ∈ ss, Proper s) :
    segments (written ss) = ss := by
  rw [segments_eq_parts, parts, toList_written]
  cases ss with
  | nil => rfl
  | cons s ss =>
    have hslash : ∀ cs ∈ (s :: ss).map String.toList, '/' ∉ cs := by
      intro cs hcs
      obtain ⟨x, hx, rfl⟩ := List.mem_map.mp hcs
      exact (h x hx).slash_not_mem
    have hne : (s :: ss).filter (· ≠ "") = s :: ss := by
      rw [List.filter_eq_self]
      intro x hx
      simpa using (h x hx).ne_empty
    rw [List.splitOn_cons_eq_if_modifyHead]
    simp only [BEq.rfl, if_true]
    rw [List.splitOn_intercalate '/' hslash (by simp), List.map_cons, List.map_map]
    simpa using hne

theorem routesFrom_eq_flatMap (stack : List (RouteTree × String)) :
    routesFrom stack = stack.flatMap fun p =>
      p.1.entries.map fun e =>
        (if (trail p.2 e.1).isEmpty then "/" else trail p.2 e.1, e.2) := by
  induction stack using routesFrom.induct with
  | case1 => rw [routesFrom, List.flatMap_nil]
  | case2 t above rest ih =>
    rw [routesFrom, ih, List.flatMap_append, List.flatMap_cons, entries_eq t, List.map_append,
      ← List.append_assoc]
    congr 2
    · rw [listed, List.map_map]
      rfl
    · rw [labelled]
      induction t.children with
      | nil => rfl
      | cons c cs ih =>
        rw [List.map_cons, List.flatMap_cons, ih, entriesBelow, List.map_append, List.map_map]
        rfl

/-- The listing holds every entry, as a path, in order. -/
theorem routes_eq (t : RouteTree) : t.routes = t.entries.map fun e => (written e.1, e.2) := by
  simp only [routes, routesFrom_eq_flatMap, List.flatMap_cons, List.flatMap_nil, List.append_nil,
    written_eq_trail]

theorem countFrom_eq (stack : List (RouteTree × Unit)) (count : Nat) :
    countFrom stack count = count + (stack.flatMap fun p => p.1.entries).length := by
  induction stack, count using countFrom.induct with
  | case1 count => simp [countFrom]
  | case2 t rest count ih =>
    have hbelow : ((labelled (fun _ => ()) t).reverse.flatMap fun p => p.1.entries).length =
        (entriesBelow t.children).length := by
      rw [((List.reverse_perm _).flatMap_right _).length_eq, labelled]
      induction t.children with
      | nil => rfl
      | cons c cs ih => simpa [entriesBelow] using ih
    simp only [dite_eq_ite] at ih
    rw [countFrom, ih, List.flatMap_append, List.length_append, hbelow, List.flatMap_cons,
      entries_eq t]
    cases t.artifact with
    | none => simp
    | some a => simp; omega

/-- The count is that of the entries. -/
theorem artifactCount_eq (t : RouteTree) : t.artifactCount = t.entries.length := by
  simp [artifactCount, countFrom_eq]

theorem artifactCount_eq_length_routes (t : RouteTree) : t.artifactCount = t.routes.length := by
  rw [artifactCount_eq, routes_eq, List.length_map]

theorem segment_of_find? {cs : List RouteTree} {s : String} {c : RouteTree}
    (h : cs.find? (·.segment == s) = some c) : c.segment = s := by
  simpa using List.find?_some h

/-- Whatever lookup finds is an entry. -/
theorem mem_entries_of_artifactAt {t : RouteTree} {ss : List String} {a : Artifact}
    (h : t.artifactAt ss = some a) : (ss, a) ∈ t.entries := by
  induction ss generalizing t with
  | nil => simpa using h
  | cons s ss ih =>
    rw [artifactAt_cons, Option.bind_eq_some_iff] at h
    obtain ⟨c, hc, ha⟩ := h
    exact cons_mem_entries.mpr ⟨c, List.mem_of_find?_eq_some hc, segment_of_find? hc, ih ha⟩

/-- A child that leads to an artifact has a segment that could stand in a path and that
no child before it has. -/
structure Clear (t : RouteTree) : Prop where
  distinct : t.children.Pairwise fun c d => d.entries ≠ [] → c.segment ≠ d.segment
  proper : ∀ c ∈ t.children, c.entries ≠ [] → Proper c.segment

theorem Siblings.clear {t : RouteTree} (h : t.Siblings) : t.Clear :=
  ⟨(List.pairwise_map.mp h.distinct).imp fun hne => fun _ => hne, fun c hc _ => h.proper c hc⟩

theorem Every.mono {P Q : RouteTree → Prop} (hPQ : ∀ t, P t → Q t) {t : RouteTree}
    (h : t.Every P) : t.Every Q := by
  induction t using RouteTree.induction with
  | node segment children artifact ih =>
    exact .node (hPQ _ h.here) fun c hc => ih c hc (h.of_mem hc)

/-- Every entry is found at its chain of segments, no chain has two, and each can be read
off its path. -/
structure Faithful (t : RouteTree) : Prop where
  found : ∀ e ∈ t.entries, t.artifactAt e.1 = some e.2
  distinct : (t.entries.map (·.1)).Nodup
  proper : ∀ e ∈ t.entries, ∀ s ∈ e.1, Proper s

namespace Faithful

theorem mem_entries_iff {t : RouteTree} (h : t.Faithful) {ss : List String} {a : Artifact} :
    (ss, a) ∈ t.entries ↔ t.artifactAt ss = some a :=
  ⟨fun he => h.found _ he, mem_entries_of_artifactAt⟩

end Faithful

/-- The first of some siblings with the segment of one that leads to an artifact is that one. -/
theorem find?_segment_of_distinct {cs : List RouteTree}
    (h : cs.Pairwise fun c d => d.entries ≠ [] → c.segment ≠ d.segment) {d : RouteTree}
    (hd : d ∈ cs) (hne : d.entries ≠ []) : cs.find? (·.segment == d.segment) = some d := by
  induction cs with
  | nil => simp at hd
  | cons c cs ih =>
    obtain ⟨hc, hcs⟩ := List.pairwise_cons.mp h
    rcases List.mem_cons.mp hd with rfl | hd
    · simp
    · simp [hc d hd hne, ih hcs hd]

theorem map_fst_map_under (segment : String) (es : List (List String × Artifact)) :
    (es.map (under segment)).map (·.1) = (es.map (·.1)).map (segment :: ·) := by
  simp [under, Function.comp_def]

theorem nodup_map_under_iff (segment : String) (es : List (List String × Artifact)) :
    ((es.map (under segment)).map (·.1)).Nodup ↔ (es.map (·.1)).Nodup := by
  rw [map_fst_map_under, List.nodup_map_iff fun _ _ h => (List.cons.inj h).2]

/-- A node's own artifact shares its chain with nothing below. -/
theorem nodup_entries_iff (t : RouteTree) :
    (t.entries.map (·.1)).Nodup ↔ ((entriesBelow t.children).map (·.1)).Nodup := by
  have hnil : [] ∉ (entriesBelow t.children).map (·.1) := by
    simp [mem_entriesBelow, under]
  rw [entries_eq]
  cases t.artifact <;> simp [hnil]

theorem nodup_of_mem {cs : List RouteTree} {c : RouteTree} (hc : c ∈ cs)
    (h : ((entriesBelow cs).map (·.1)).Nodup) : (c.entries.map (·.1)).Nodup := by
  induction cs with
  | nil => simp at hc
  | cons d cs ih =>
    rw [entriesBelow, List.map_append, List.nodup_append] at h
    rcases List.mem_cons.mp hc with rfl | hc
    · exact (nodup_map_under_iff _ _).mp h.1
    · exact ih hc h.2.1

theorem nodup_entriesBelow {cs : List RouteTree}
    (h : cs.Pairwise fun c d => d.entries ≠ [] → c.segment ≠ d.segment)
    (hchildren : ∀ c ∈ cs, (c.entries.map (·.1)).Nodup) :
    ((entriesBelow cs).map (·.1)).Nodup := by
  induction cs with
  | nil => simp [entriesBelow]
  | cons c cs ih =>
    obtain ⟨hc, hcs⟩ := List.pairwise_cons.mp h
    have hhead := (nodup_map_under_iff c.segment _).mpr (hchildren c List.mem_cons_self)
    have htail := ih hcs fun d hd => hchildren d (List.mem_cons_of_mem c hd)
    rw [entriesBelow, List.map_append, List.nodup_append]
    refine ⟨hhead, htail, ?_⟩
    intro x hx y hy hxy
    obtain ⟨_, he, rfl⟩ := List.mem_map.mp hx
    obtain ⟨e, -, rfl⟩ := List.mem_map.mp he
    obtain ⟨_, hf, rfl⟩ := List.mem_map.mp hy
    obtain ⟨d, hd, hf⟩ := mem_entriesBelow.mp hf
    obtain ⟨f, hmem, rfl⟩ := List.mem_map.mp hf
    exact hc d hd (List.ne_nil_of_mem hmem) (List.cons.inj hxy).1

/-- Siblings of which lookup finds every entry, and finds it once, do not hide one another. -/
theorem pairwise_of_found {cs : List RouteTree}
    (hfound : ∀ d ∈ cs, ∀ e ∈ d.entries,
      (cs.find? (·.segment == d.segment)).bind (artifactAt e.1) = some e.2)
    (hnodup : ((entriesBelow cs).map (·.1)).Nodup) :
    cs.Pairwise fun c d => d.entries ≠ [] → c.segment ≠ d.segment := by
  induction cs with
  | nil => exact .nil
  | cons c cs ih =>
    rw [entriesBelow, List.map_append, List.nodup_append] at hnodup
    obtain ⟨-, htail, hapart⟩ := hnodup
    have hhead : ∀ d ∈ cs, d.entries ≠ [] → c.segment ≠ d.segment := by
      intro d hd hne hs
      obtain ⟨e, he⟩ := List.exists_mem_of_ne_nil _ hne
      have hf := hfound d (List.mem_cons_of_mem c hd) e he
      simp only [hs, List.find?_cons_of_pos, BEq.rfl, Option.bind_some] at hf
      have hc : under c.segment e ∈ c.entries.map (under c.segment) :=
        List.mem_map_of_mem (mem_entries_of_artifactAt hf)
      have hd : under d.segment e ∈ entriesBelow cs :=
        mem_entriesBelow.mpr ⟨d, hd, List.mem_map_of_mem he⟩
      exact hapart _ (List.mem_map_of_mem hc) _ (List.mem_map_of_mem hd) (by simp [under, hs])
    refine List.pairwise_cons.mpr ⟨hhead, ih (fun d hd e he => ?_) htail⟩
    have hf := hfound d (List.mem_cons_of_mem c hd) e he
    simpa [hhead d hd (List.ne_nil_of_mem he)] using hf

/-- Faithfulness is a matter of the children of a node and of the trees below them. -/
theorem faithful_node_iff (t : RouteTree) :
    t.Faithful ↔ t.Clear ∧ ∀ c ∈ t.children, c.Faithful := by
  have hbelow : ∀ c ∈ t.children, ∀ e ∈ c.entries, under c.segment e ∈ t.entries :=
    fun c hc e he => cons_mem_entries.mpr ⟨c, hc, rfl, he⟩
  constructor
  · intro h
    have hnodup := (nodup_entries_iff t).mp h.distinct
    have hfound : ∀ d ∈ t.children, ∀ e ∈ d.entries,
        (t.findChild d.segment).bind (artifactAt e.1) = some e.2 := by
      intro d hd e he
      have hf := h.found _ (hbelow d hd e he)
      rwa [under, artifactAt_cons] at hf
    have hdistinct := pairwise_of_found hfound hnodup
    refine ⟨⟨hdistinct, fun c hc hne => ?_⟩, fun c hc =>
      ⟨fun e he => ?_, nodup_of_mem hc hnodup, fun e he s hs => ?_⟩⟩
    · obtain ⟨e, he⟩ := List.exists_mem_of_ne_nil _ hne
      exact h.proper _ (hbelow c hc e he) _ List.mem_cons_self
    · have hfirst := find?_segment_of_distinct hdistinct hc (List.ne_nil_of_mem he)
      have hf := hfound c hc e he
      rwa [findChild, hfirst, Option.bind_some] at hf
    · exact h.proper _ (hbelow c hc e he) s (List.mem_cons_of_mem _ hs)
  · rintro ⟨hclear, hchildren⟩
    refine ⟨fun e he => ?_, ?_, fun e he => ?_⟩
    · obtain ⟨_ | ⟨s, ss⟩, a⟩ := e
      · simpa using he
      · obtain ⟨c, hc, rfl, hx⟩ := cons_mem_entries.mp he
        have hne : c.entries ≠ [] := List.ne_nil_of_mem hx
        have hfirst := find?_segment_of_distinct hclear.distinct hc hne
        rw [artifactAt_cons, findChild, hfirst, Option.bind_some]
        exact (hchildren c hc).found _ hx
    · rw [nodup_entries_iff]
      exact nodup_entriesBelow hclear.distinct fun c hc => (hchildren c hc).distinct
    · obtain ⟨_ | ⟨s, ss⟩, a⟩ := e
      · simp
      · obtain ⟨c, hc, rfl, hx⟩ := cons_mem_entries.mp he
        have hne : c.entries ≠ [] := List.ne_nil_of_mem hx
        exact List.forall_mem_cons.mpr ⟨hclear.proper c hc hne, (hchildren c hc).proper _ hx⟩

/-- Lookup agrees with the entries of a tree just if its nodes are clear. -/
theorem faithful_iff (t : RouteTree) : t.Faithful ↔ t.Every Clear := by
  induction t using RouteTree.induction with
  | node segment children artifact ih =>
    rw [faithful_node_iff, every_node_iff]
    exact and_congr_right fun _ => forall₂_congr ih

theorem faithful_ofRoutes (routes : List (String × Artifact)) : (ofRoutes routes).Faithful :=
  (faithful_iff _).mpr ((every_siblings_ofRoutes routes).mono fun _ => Siblings.clear)

end ArtifactPlane.RouteTree
