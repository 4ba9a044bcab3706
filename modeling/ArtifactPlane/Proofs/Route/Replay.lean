import ArtifactPlane.Proofs.Route.Listing

/-!
The listing of a tree of routes.  Main statement: it holds every chain of segments that was
inserted, once and with the artifact that was inserted last, and its routes build the same
tree again.
-/

namespace ArtifactPlane.RouteTree

/-- Every child of a node leads to an artifact. -/
def Bearing (t : RouteTree) : Prop :=
  ∀ c ∈ t.children, c.entries ≠ []

theorem entries_insert_ne_nil (ss : List String) (a : Artifact) (t : RouteTree) :
    (t.insert ss a).entries ≠ [] := by
  have h : (t.insert ss a).artifactAt ss = some a := by
    rw [artifactAt_insert, if_pos rfl]
  exact List.ne_nil_of_mem (mem_entries_of_artifactAt h)

theorem every_bearing_leaf (s : String) : (leaf s).Every Bearing :=
  .node (fun _ hc => by simp [leaf] at hc) fun _ hc => by simp [leaf] at hc

/-- Every node that an insertion makes lies above the artifact. -/
theorem every_bearing_insert (ss : List String) (a : Artifact) {t : RouteTree}
    (h : t.Every Bearing) : (t.insert ss a).Every Bearing := by
  induction ss generalizing t with
  | nil => exact .node (fun c hc => h.here c hc) fun c hc => h.of_mem hc
  | cons s ss ih =>
    refine .node ?_ ?_
    · intro d hd
      rcases mem_graft hd with hd | ⟨c, -, -, rfl⟩
      · exact h.here d hd
      · exact entries_insert_ne_nil ss a c
    · intro d hd
      rcases mem_graft hd with hd | ⟨c, hc | rfl, -, rfl⟩
      · exact h.of_mem hd
      · exact ih (h.of_mem hc)
      · exact ih (every_bearing_leaf s)

theorem every_bearing_ofRoutes (routes : List (String × Artifact)) :
    (ofRoutes routes).Every Bearing :=
  List.foldlRecOn routes _ (every_bearing_leaf "") fun _ h r _ =>
    every_bearing_insert (segments r.1) r.2 h

@[simp]
theorem segment_ofRoutes (routes : List (String × Artifact)) : (ofRoutes routes).segment = "" :=
  List.foldlRecOn routes (motive := fun t : RouteTree => t.segment = "") _ rfl fun _ h r _ =>
    (segment_insert (segments r.1) r.2 _).trans h

/-- Insert some entries in order. -/
def plant (t : RouteTree) (es : List (List String × Artifact)) : RouteTree :=
  es.foldl (fun t e => t.insert e.1 e.2) t

theorem plant_append (t : RouteTree) (es fs : List (List String × Artifact)) :
    t.plant (es ++ fs) = (t.plant es).plant fs :=
  List.foldl_append

/-- A change passes over siblings without the segment. -/
theorem graft_append_of_notMem {s : String} {cs : List RouteTree}
    (h : s ∉ cs.map (·.segment)) (change : RouteTree → RouteTree) (ds : List RouteTree) :
    graft s change (cs ++ ds) = cs ++ graft s change ds := by
  induction cs with
  | nil => rfl
  | cons c cs ih =>
    obtain ⟨hc, hcs⟩ := not_or.mp (List.mem_cons.not.mp h)
    rw [List.cons_append, graft, if_neg (Ne.symm hc), ih hcs, List.cons_append]

/-- Entries below the last child change that child. -/
theorem plant_map_under {segment : String} {cs : List RouteTree} {c : RouteTree}
    {a : Option Artifact} (h : c.segment ∉ cs.map (·.segment))
    (es : List (List String × Artifact)) :
    plant ⟨segment, cs ++ [c], a⟩ (es.map (under c.segment)) =
      ⟨segment, cs ++ [c.plant es], a⟩ := by
  induction es generalizing c with
  | nil => rfl
  | cons e es ih =>
    have hinsert : insert (c.segment :: e.1) e.2 ⟨segment, cs ++ [c], a⟩ =
        ⟨segment, cs ++ [c.insert e.1 e.2], a⟩ := by
      rw [insert, graft_append_of_notMem h, graft, if_pos rfl]
    have hrest := ih (c := c.insert e.1 e.2) (by rwa [segment_insert])
    rw [segment_insert] at hrest
    rw [List.map_cons, plant, List.foldl_cons]
    exact (congrArg (fun t => plant t (es.map (under c.segment))) hinsert).trans hrest

/-- The first of some entries below a new segment makes a last child for all of them. -/
theorem plant_map_under_new {segment s : String} {cs : List RouteTree} {a : Option Artifact}
    (h : s ∉ cs.map (·.segment)) {es : List (List String × Artifact)} (hne : es ≠ []) :
    plant ⟨segment, cs, a⟩ (es.map (under s)) = ⟨segment, cs ++ [(leaf s).plant es], a⟩ := by
  cases es with
  | nil => exact absurd rfl hne
  | cons e es =>
    have hinsert : insert (s :: e.1) e.2 ⟨segment, cs, a⟩ =
        ⟨segment, cs ++ [(leaf s).insert e.1 e.2], a⟩ := by
      have hgraft := graft_append_of_notMem h (insert e.1 e.2) []
      rw [List.append_nil] at hgraft
      rw [insert, hgraft, graft]
    have hsegment : ((leaf s).insert e.1 e.2).segment = s := by simp [leaf]
    have hrest : plant ⟨segment, cs ++ [(leaf s).insert e.1 e.2], a⟩
        (es.map (under ((leaf s).insert e.1 e.2).segment)) =
        ⟨segment, cs ++ [((leaf s).insert e.1 e.2).plant es], a⟩ :=
      plant_map_under (by rwa [hsegment]) es
    rw [hsegment] at hrest
    rw [List.map_cons, plant, List.foldl_cons]
    exact (congrArg (fun t => plant t (es.map (under s))) hinsert).trans hrest

/-- Siblings come back in order when each of them comes back. -/
theorem plant_entriesBelow {segment : String} {cs ts : List RouteTree} {a : Option Artifact}
    (hdistinct : ((cs ++ ts).map (·.segment)).Nodup) (hbearing : ∀ t ∈ ts, t.entries ≠ [])
    (hback : ∀ t ∈ ts, (leaf t.segment).plant t.entries = t) :
    plant ⟨segment, cs, a⟩ (entriesBelow ts) = ⟨segment, cs ++ ts, a⟩ := by
  induction ts generalizing cs with
  | nil => rw [entriesBelow, List.append_nil, plant, List.foldl_nil]
  | cons t ts ih =>
    have hnew : t.segment ∉ cs.map (·.segment) := by
      rw [List.map_append, List.nodup_append] at hdistinct
      exact fun hmem => hdistinct.2.2 _ hmem _ List.mem_cons_self rfl
    rw [entriesBelow, plant_append, plant_map_under_new hnew (hbearing t List.mem_cons_self),
      hback t List.mem_cons_self]
    have hnext : (((cs ++ [t]) ++ ts).map (·.segment)).Nodup := by simpa using hdistinct
    have hrest := ih hnext (fun u hu => hbearing u (List.mem_cons_of_mem t hu))
      fun u hu => hback u (List.mem_cons_of_mem t hu)
    rw [hrest, List.append_assoc, List.singleton_append]

/-- A tree of which siblings stand apart and no node is barren comes back from its entries,
inserted in order. -/
theorem plant_entries {t : RouteTree} (hsiblings : t.Every Siblings)
    (hbearing : t.Every Bearing) : (leaf t.segment).plant t.entries = t := by
  induction t using RouteTree.induction with
  | node segment children artifact ih =>
    have hown : (leaf segment).plant (artifact.toList.map fun a => ([], a)) =
        ⟨segment, [], artifact⟩ := by
      cases artifact <;> rfl
    rw [entries, plant_append, hown]
    exact plant_entriesBelow hsiblings.here.distinct hbearing.here
      fun c hc => ih c hc (hsiblings.of_mem hc) (hbearing.of_mem hc)

/-- Where every chain can be read off its path, the listing plants the entries. -/
theorem ofRoutes_routes {t : RouteTree} (h : t.Faithful) :
    ofRoutes t.routes = empty.plant t.entries := by
  rw [ofRoutes, routes_eq, List.foldl_map, plant]
  refine List.foldl_ext _ _ _ fun u e he => ?_
  rw [insertPath, segments_written (h.proper e he)]

/-- The routes of a tree tell what was inserted into it. -/
structure Recounts (inserted : List (String × Artifact)) (t : RouteTree) : Prop where
  once : ∀ r ∈ inserted, ∃ a, last? inserted r.1 = some a ∧
    t.routes.filter (fun x => parts x.1 = parts r.1) = [("/" ++ "/".intercalate (parts r.1), a)]
  only : ∀ x ∈ t.routes, ∃ r ∈ inserted, parts x.1 = parts r.1
  count : t.artifactCount = t.routes.length
  again : ofRoutes t.routes = t

theorem filter_eq_singleton {es : List (List String × Artifact)} {e : List String × Artifact}
    (hdistinct : (es.map (·.1)).Nodup) (he : e ∈ es) : es.filter (fun x => x.1 = e.1) = [e] := by
  have hcongr : es.filter (fun x => x.1 = e.1) = es.filter (· == e) := by
    refine List.filter_congr fun x hx => ?_
    have hiff : x.1 = e.1 ↔ x = e :=
      ⟨fun h => List.inj_on_of_nodup_map hdistinct hx he h, congrArg Prod.fst⟩
    rw [Bool.eq_iff_iff, decide_eq_true_iff, hiff, beq_iff_eq]
  rw [hcongr, List.filter_beq, List.count_eq_one_of_mem hdistinct.of_map he, List.replicate_one]

theorem last?_isSome {inserted : List (String × Artifact)} {r : String × Artifact}
    (hr : r ∈ inserted) : (last? inserted r.1).isSome := by
  rw [last?, Option.isSome_map, List.find?_isSome]
  exact ⟨r, List.mem_reverse.mpr hr, by simp⟩

theorem exists_of_last? {inserted : List (String × Artifact)} {path : String} {a : Artifact}
    (h : last? inserted path = some a) : ∃ r ∈ inserted, parts r.1 = parts path := by
  obtain ⟨r, hr, -⟩ := Option.map_eq_some_iff.mp h
  exact ⟨r, List.mem_reverse.mp (List.mem_of_find?_eq_some hr), by simpa using List.find?_some hr⟩

/-- Routes inserted into an empty tree are listed, each chain of segments once, with a slash
before each segment and with the artifact inserted last, nothing else is, the count is that
of the listed routes, and these, inserted in their order, build the same tree. -/
theorem ofRoutes_recounts (inserted : List (String × Artifact)) :
    Recounts inserted (ofRoutes inserted) := by
  have hfaithful := faithful_ofRoutes inserted
  have hback : ∀ e ∈ (ofRoutes inserted).entries, parts (written e.1) = e.1 := by
    intro e he
    rw [← segments_eq_parts, segments_written (hfaithful.proper e he)]
  have hfound : ∀ ss a, (ss, a) ∈ (ofRoutes inserted).entries ↔
      (ofRoutes inserted).artifactAt ss = some a := fun ss a => hfaithful.mem_entries_iff
  refine ⟨fun r hr => ?_, fun x hx => ?_, artifactCount_eq_length_routes _, ?_⟩
  · obtain ⟨a, ha⟩ := Option.isSome_iff_exists.mp (last?_isSome hr)
    have he : (parts r.1, a) ∈ (ofRoutes inserted).entries := by
      rw [hfound, ← segments_eq_parts, ← resolve_eq_artifactAt, resolve_ofRoutes, ha]
    have hentries := filter_eq_singleton hfaithful.distinct he
    refine ⟨a, ha, ?_⟩
    have hparts : (ofRoutes inserted).entries.filter (fun e => parts (written e.1) = parts r.1) =
        [(parts r.1, a)] := by
      rw [← hentries]
      exact List.filter_congr fun e he => by rw [hback e he]
    rw [routes_eq, List.filter_map, Function.comp_def, hparts]
    rfl
  · rw [routes_eq] at hx
    obtain ⟨e, he, rfl⟩ := List.mem_map.mp hx
    have ha := hfaithful.found e he
    rw [← hback e he, ← segments_eq_parts, ← resolve_eq_artifactAt, resolve_ofRoutes] at ha
    obtain ⟨r, hr, hsame⟩ := exists_of_last? ha
    exact ⟨r, hr, hsame.symm⟩
  · rw [ofRoutes_routes hfaithful]
    have hplant :=
      plant_entries (every_siblings_ofRoutes inserted) (every_bearing_ofRoutes inserted)
    rwa [segment_ofRoutes] at hplant

end ArtifactPlane.RouteTree
