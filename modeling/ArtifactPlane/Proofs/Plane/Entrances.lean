import Mathlib.Data.List.Induction
import ArtifactPlane.Proofs.Path.Components
import ArtifactPlane.Proofs.Plane.Rest

/-!
The entry points of a plane over storage in memory.  A path leads to the content that was last
put under its normal form and not removed since.  A path without a normal form is put under
itself, where nothing looks, for no key that is looked under has any other normal form than
itself.  Without a cache, a call for content reads storage once, wherever the path leads.
-/

namespace ArtifactPlane

open ArtifactPlane.Path (normalForm?)

namespace Storage

variable {s : Storage} {key path : String}

/-- What storage has in memory under a key. -/
def under? (s : Storage) (key : String) : Option Octets :=
  match s.medium with
  | .memory objects => objects.lookup key
  | .directory _ _ => none

/-- What storage has in memory for a path. -/
def object? (s : Storage) (path : String) : Option Octets := (normalForm? path).bind s.under?

def IsMemory (s : Storage) : Prop := ∃ objects, s.medium = .memory objects

theorem under?_of_medium {objects : List (String × Octets)} (h : s.medium = .memory objects) :
    s.under? = fun key => objects.lookup key := by
  funext key
  rw [under?, h]

theorem lookup_filter_ne (objects : List (String × Octets)) (key k : String) :
    (objects.filter fun o => o.1 != k).lookup key =
      if k = key then none else objects.lookup key := by
  induction objects with
  | nil => simp
  | cons o rest ih =>
    obtain ⟨name, content⟩ := o
    by_cases hname : name = k
    · rw [List.filter_cons_of_neg (by simp [hname]), ih, hname]
      by_cases hk : k = key
      · rw [if_pos hk, if_pos hk]
      · rw [if_neg hk, if_neg hk, List.lookup_cons, beq_eq_false_iff_ne.mpr (Ne.symm hk)]
    · rw [List.filter_cons_of_pos (by simpa using hname), List.lookup_cons, List.lookup_cons, ih]
      by_cases hk : k = key
      · rw [if_pos hk, if_pos hk, beq_eq_false_iff_ne.mpr fun h => hname (h.symm.trans hk.symm)]
      · rw [if_neg hk, if_neg hk]

/-- A path is put under a normal form exactly if that is its own. -/
theorem insertionKey_eq_iff (hkey : normalForm? key = some key) :
    insertionKey path = key ↔ normalForm? path = some key := by
  rw [insertionKey]
  cases hpath : normalForm? path with
  | some q => simp
  | none =>
    have hne : path ≠ key := by
      rintro rfl
      exact nomatch hpath.symm.trans hkey
    simp [hne]

theorem IsMemory.insert (hs : s.IsMemory) (path : String) (content : Octets) :
    (s.insert path content).IsMemory := by
  obtain ⟨objects, hobjects⟩ := hs
  exact ⟨_, by rw [Storage.insert, hobjects]⟩

theorem IsMemory.remove (hs : s.IsMemory) (path : String) : (s.remove path).2.IsMemory := by
  obtain ⟨objects, hobjects⟩ := hs
  rw [Storage.remove, hobjects]
  cases normalForm? path with
  | none => exact ⟨objects, hobjects⟩
  | some q => exact ⟨_, rfl⟩

theorem under?_insert (hs : s.IsMemory) (hkey : normalForm? key = some key) (path : String)
    (content : Octets) : (s.insert path content).under? key =
      if normalForm? path = some key then some content else s.under? key := by
  obtain ⟨objects, hobjects⟩ := hs
  simp only [under?, insert, hobjects, List.lookup_cons, lookup_filter_ne,
    ← insertionKey_eq_iff hkey]
  by_cases h : insertionKey path = key
  · simp [h]
  · simp [h, beq_eq_false_iff_ne.mpr (Ne.symm h)]

theorem under?_remove (hs : s.IsMemory) (key path : String) : (s.remove path).2.under? key =
    if normalForm? path = some key then none else s.under? key := by
  obtain ⟨objects, hobjects⟩ := hs
  rw [under?, remove, hobjects]
  cases normalForm? path with
  | none => simp [under?]
  | some q => simp [lookup_filter_ne, under?, hobjects]

theorem content_of_memory (hs : s.IsMemory) (path : String) : content s.medium path =
    match s.object? path with
    | some content => .ok content
    | none => .error (.notFound path) := by
  obtain ⟨objects, hobjects⟩ := hs
  rw [hobjects, object?, under?_of_medium hobjects]
  rfl

/-- Storage in memory gives the same whole as in a stream. -/
theorem stream_of_memory (hs : s.IsMemory) (path : String) :
    stream s.medium path = (content s.medium path).map .ok := by
  obtain ⟨objects, hobjects⟩ := hs
  rw [hobjects]
  rfl

theorem contains_of_memory (hs : s.IsMemory) (path : String) :
    s.contains path = (s.object? path).isSome := by
  obtain ⟨objects, hobjects⟩ := hs
  rw [contains, hobjects, object?, under?_of_medium hobjects]

/-- Every attempt to read is counted. -/
theorem read_snd_ne (s : Storage) (path : String) : (s.read path).2 ≠ s := by
  have hreads : (s.read path).2.counts.reads = s.counts.reads + 1 := by
    rw [read, receive, ask]
    cases content s.medium path <;> rfl
  intro h
  rw [h] at hreads
  simp at hreads

end Storage

namespace Plane

variable {p : Plane} {path : String}

/-- The same plane over other storage. -/
def withStorage (p : Plane) (storage : Storage) : Plane := { p with storage }

/-- What a plane reads for a path without a cache, and the storage that is left. -/
def fetch (p : Plane) (path : String) : Loaded × Storage :=
  match p.locate path with
  | .ok object => p.storage.read object
  | .error e => (.error e, p.storage)

theorem begin_eq_locate (p : Plane) (path : String) :
    p.begin path = (p.locate path).map fun object => ⟨object, p.epoch?⟩ := rfl

theorem keep_of_uncached (hcache : p.cache? = none) (load : PendingLoad) (content : Octets)
    (now : Instant) : p.keep load content now = (.delivered (.ok content), p) := by
  have hstore : p.store? load content now now = some (false, p) := by
    rw [store?, hcache]
    simp
  rw [keep, hstore]

theorem fulfil_of_uncached (hcache : p.cache? = none) (load : PendingLoad) (now : Instant) :
    p.fulfil load now = (.delivered (p.readObject load).1, (p.readObject load).2) := by
  have hlook : p.lookUp load now = (.miss, p) := by
    rw [lookUp, hcache]
  have hread : (p.readObject load).2.cache? = none := hcache
  simp only [fulfil, consult, hlook, readAndKeep]
  rcases hfound : p.readObject load with ⟨_ | content, q⟩
  · rfl
  · rw [hfound] at hread
    exact keep_of_uncached hread load content now

theorem openStream_snd (p : Plane) (path : String) : ∃ s,
    (p.openStream path).2 = p.withStorage s ∧ s.medium = p.storage.medium := by
  rw [openStream.eq_def]
  cases p.locate path with
  | error e => exact ⟨p.storage, rfl, rfl⟩
  | ok object =>
    refine ⟨(p.storage.openStream object).2, rfl, ?_⟩
    rw [Storage.openStream]
    cases Storage.stream p.storage.medium object <;> rfl

theorem AtRest.withStorage (h : p.AtRest) (hcache : p.cache? = none) (storage : Storage) :
    (p.withStorage storage).AtRest where
  faithful _ hc := nomatch hcache.symm.trans hc
  placed := h.placed
  idle := h.idle

end Plane

namespace Traffic

variable {t : Traffic} {path : String}

/-- A call for a path that leads nowhere changes nothing. -/
theorem get_of_locate_eq_error {e : Error} (h : t.plane.locate path = .error e) (now : Instant) :
    t.get path now = (some (.delivered (.error e)), [], t) := by
  have hbegin := t.plane.begin_eq_locate path
  rw [h] at hbegin
  simp [get, arrive, hbegin, Except.map]

/-- A call without a cache reads storage where the path leads, and does nothing otherwise. -/
theorem AtRest.get_of_uncached (ht : t.AtRest) (hcache : t.plane.cache? = none) (path : String)
    (now : Instant) : (t.get path now).1 = some (.delivered (t.plane.fetch path).1) ∧
      (t.get path now).2.2.plane.storage = (t.plane.fetch path).2 := by
  have hbegin := t.plane.begin_eq_locate path
  rw [Plane.fetch]
  cases hlocate : t.plane.locate path with
  | error e =>
    rw [get_of_locate_eq_error hlocate now]
    exact ⟨rfl, rfl⟩
  | ok object =>
    rw [hlocate] at hbegin
    cases hc : t.plane.coalescer? with
    | none =>
      rw [Traffic.get, ht.arrive_eq_alone hbegin hc, Plane.fulfil_of_uncached hcache]
      exact ⟨rfl, rfl⟩
    | some c =>
      have hled : (t.plane.setCoalescer (c.lead object).2).cache? = none :=
        (Plane.cache?_setCoalescer _ _).trans hcache
      have hread := Plane.fulfil_of_uncached hled ⟨object, t.plane.epoch?⟩ now
      have hended := Plane.coalescer?_setCoalescer hc (c.lead object).2
      rw [Traffic.get, ht.arrive_eq_leading hbegin hc rfl (by rw [hread]; exact hended), hread]
      simp only [Plane.readObject_eq, Plane.storage_setCoalescer]
      exact ⟨rfl, trivial⟩

/-- A use of a plane over storage in memory: by those who put content there, or by callers. -/
inductive Use where
  | insert (path : String) (content : Octets)
  | remove (path : String)
  | get (path : String) (now : Instant)
  | openStream (path : String)

/-- Let one use happen. -/
def use (t : Traffic) : Use → Traffic
  | .insert path content => t.mapPlane fun p => p.withStorage (p.storage.insert path content)
  | .remove path => t.mapPlane fun p => p.withStorage (p.storage.remove path).2
  | .get path now => (t.get path now).2.2
  | .openStream path => t.mapPlane fun p => (p.openStream path).2

/-- Let uses happen one after another. -/
def uses (t : Traffic) (us : List Use) : Traffic := us.foldl use t

/-- The normal form under which a use puts content or removes it. -/
def Use.key? : Use → Option String
  | .insert path _ => normalForm? path
  | .remove path => normalForm? path
  | .get _ _ => none
  | .openStream _ => none

/-- What a use puts. -/
def Use.content? : Use → Option Octets
  | .insert _ content => some content
  | _ => none

/-- What uses have put last under the normal form of a path and have not removed since. -/
def Left (us : List Use) (path : String) (content : Octets) : Prop :=
  ∃ key, normalForm? path = some key ∧ ∃ before q after,
    us = before ++ .insert q content :: after ∧ normalForm? q = some key ∧
    ∀ u ∈ after, u.key? ≠ some key

theorem not_left_nil (path : String) (content : Octets) : ¬ Left [] path content := by
  rintro ⟨key, -, before, q, after, h, -⟩
  simp at h

/-- The last use decides what is under its own key and leaves the others as they are. -/
theorem left_concat_iff {us : List Use} {u : Use} {path key : String} {content : Octets}
    (hpath : normalForm? path = some key) : Left (us ++ [u]) path content ↔
      if u.key? = some key then u.content? = some content else Left us path content := by
  constructor
  · rintro ⟨k, hk, before, q, after, hsplit, hq, hafter⟩
    obtain rfl := Option.some.inj (hpath.symm.trans hk)
    rcases List.eq_nil_or_concat' after with rfl | ⟨after, v, rfl⟩
    · obtain ⟨-, hlast⟩ := List.append_inj' hsplit rfl
      obtain rfl := List.singleton_inj.mp hlast
      have hown : (Use.insert q content).key? = some key := hq
      rw [if_pos hown, Use.content?]
    · rw [← List.cons_append, ← List.append_assoc] at hsplit
      obtain ⟨rfl, hlast⟩ := List.append_inj' hsplit rfl
      obtain rfl := List.singleton_inj.mp hlast
      rw [if_neg (hafter u (by simp))]
      exact ⟨key, hpath, before, q, after, rfl, hq, fun v hv => hafter v (by simp [hv])⟩
  · intro h
    by_cases hown : u.key? = some key
    · rw [if_pos hown] at h
      cases u with
      | insert q put =>
        obtain rfl := Option.some.inj h
        exact ⟨key, hpath, us, q, [], rfl, hown, by simp⟩
      | remove | get | openStream => exact nomatch h
    · rw [if_neg hown] at h
      obtain ⟨k, hk, before, q, after, rfl, hq, hafter⟩ := h
      obtain rfl := Option.some.inj (hpath.symm.trans hk)
      refine ⟨key, hpath, before, q, after ++ [u], by simp, hq, fun v hv => ?_⟩
      rcases List.mem_append.mp hv with hv | hv
      · exact hafter v hv
      · exact List.mem_singleton.mp hv ▸ hown

/-- Nobody else there, no cache, and storage in memory. -/
structure Plain (t : Traffic) : Prop where
  rest : t.AtRest
  cache? : t.plane.cache? = none
  memory : t.plane.storage.IsMemory

/-- What one use does to a plane: it changes what is under its own key. -/
structure Uses (t u : Traffic) (key? : Option String) (content? : Option Octets) : Prop where
  plain : u.Plain
  router? : u.plane.router? = t.plane.router?
  under? : ∀ key, normalForm? key = some key → u.plane.storage.under? key =
    if key? = some key then content? else t.plane.storage.under? key

namespace Plain

theorem withStorage (ht : t.Plain) {s : Storage} (hs : s.IsMemory) :
    (t.mapPlane fun p => p.withStorage s).Plain where
  rest := ⟨ht.rest.plane.withStorage ht.cache? s, ht.rest.isOpen, ht.rest.unawaited⟩
  cache? := ht.cache?
  memory := hs

/-- Storage that differs in its counts only holds the same. -/
theorem uses_of_medium (ht : t.Plain) {u : Traffic} (hu : u.AtRest)
    (hcache : u.plane.cache? = none) (hrouter : u.plane.router? = t.plane.router?)
    (hmedium : u.plane.storage.medium = t.plane.storage.medium) : t.Uses u none none := by
  obtain ⟨objects, hobjects⟩ := ht.memory
  have hafter := hmedium.trans hobjects
  refine ⟨⟨hu, hcache, objects, hafter⟩, hrouter, fun key _ => ?_⟩
  rw [Storage.under?_of_medium hobjects, Storage.under?_of_medium hafter]
  simp

theorem use (ht : t.Plain) (u : Use) : t.Uses (t.use u) u.key? u.content? := by
  cases u with
  | insert path content =>
    exact ⟨ht.withStorage (ht.memory.insert path content), rfl,
      fun key hkey => Storage.under?_insert ht.memory hkey path content⟩
  | remove path =>
    exact ⟨ht.withStorage (ht.memory.remove path), rfl,
      fun key _ => Storage.under?_remove ht.memory key path⟩
  | get path now =>
    obtain ⟨e, after, hget, -, hleaves⟩ := ht.rest.get path now
    have halike := hleaves.alike
    have hcache : after.plane.cache? = none := by
      rw [← Option.isNone_iff_eq_none, ← Option.not_isSome, halike.cache?, ht.cache?]
      rfl
    rw [Traffic.use, hget]
    exact ht.uses_of_medium hleaves.rest hcache halike.router? halike.medium
  | openStream path =>
    obtain ⟨s, hs, hmedium⟩ := t.plane.openStream_snd path
    obtain ⟨objects, hobjects⟩ := ht.memory
    have hplain := ht.withStorage (s := s) ⟨objects, hmedium.trans hobjects⟩
    rw [Traffic.use, mapPlane, hs]
    exact ht.uses_of_medium hplain.rest ht.cache? rfl hmedium

/-- After uses, a path leads to what they have left there, if nothing was there before. -/
theorem uses (ht : t.Plain) (us : List Use) : (t.uses us).Plain ∧
    (t.uses us).plane.router? = t.plane.router? ∧
    ((∀ key, t.plane.storage.under? key = none) → ∀ path content,
      (t.uses us).plane.storage.object? path = some content ↔ Left us path content) := by
  induction us using List.reverseRecOn with
  | nil =>
    refine ⟨ht, rfl, fun hempty path content => ?_⟩
    refine iff_of_false (fun h => ?_) (not_left_nil path content)
    obtain ⟨key, -, hkey⟩ := Option.bind_eq_some_iff.mp h
    exact nomatch (hempty key).symm.trans hkey
  | append_singleton us u ih =>
    obtain ⟨hplain, hrouter, hleft⟩ := ih
    have huse := hplain.use u
    have hsnoc : t.uses (us ++ [u]) = (t.uses us).use u := List.foldl_concat ..
    rw [hsnoc]
    refine ⟨huse.plain, huse.router?.trans hrouter, fun hempty path content => ?_⟩
    cases hpath : normalForm? path with
    | none =>
      refine iff_of_false (by simp [Storage.object?, hpath]) ?_
      rintro ⟨key, hkey, -⟩
      exact nomatch hpath.symm.trans hkey
    | some key =>
      have hkey := Path.normalForm?_of_normalForm? hpath
      have hbefore := hleft hempty path content
      rw [left_concat_iff hpath, ← hbefore, Storage.object?, Storage.object?, hpath,
        Option.bind_some, Option.bind_some, huse.under? key hkey]
      split <;> rfl

end Plain

end Traffic

namespace Plane

variable {p : Plane} {router : Router} {path : String}

theorem locate_of_direct (hp : p.router? = none) (path : String) : p.locate path =
    match normalForm? path with
    | some key => .ok key
    | none => .error (.notFound path) := by
  obtain ⟨storage, source⟩ := p
  cases source with
  | direct => rfl
  | routed r => simp [router?, routing?] at hp

theorem contains_of_direct (hp : p.router? = none) (hs : p.storage.IsMemory) (path : String) :
    p.contains path = (p.storage.object? path).isSome := by
  have hlocate := locate_of_direct hp path
  obtain ⟨storage, source⟩ := p
  cases source with
  | routed r => simp [router?, routing?] at hp
  | direct =>
    rw [contains, hlocate, Storage.object?]
    cases hpath : normalForm? path with
    | none => rfl
    | some key =>
      have hkey := Path.normalForm?_of_normalForm? hpath
      exact (Storage.contains_of_memory hs key).trans (by rw [Storage.object?, hkey])

theorem fetch_of_direct (hp : p.router? = none) (hs : p.storage.IsMemory) (path : String) :
    (p.fetch path).1 = match p.storage.object? path with
      | some content => .ok content
      | none => .error (.notFound ((normalForm? path).getD path)) := by
  rw [fetch, locate_of_direct hp, Storage.object?]
  cases hpath : normalForm? path with
  | none => rfl
  | some key =>
    have hkey := Path.normalForm?_of_normalForm? hpath
    rw [read_fst, Storage.content_of_memory hs, Storage.object?, hkey]
    rfl

/-- In both modes a stream gives what a call for the content gives. -/
theorem openStream_eq_fetch (hs : p.storage.IsMemory) (path : String) :
    (p.openStream path).1 = (p.fetch path).1.map .ok := by
  rw [openStream, fetch]
  cases p.locate path with
  | error e => rfl
  | ok object =>
    exact (openStream_fst p.storage object).trans
      ((Storage.stream_of_memory hs object).trans (by rw [read_fst]))

theorem contains_of_routed (hp : p.router? = some router) (path : String) :
    p.contains path = (router.root.resolve path).isSome := by
  have hlocate := locate_eq hp path
  rw [contains, hlocate, Router.route?, Router.artifact?]
  obtain ⟨storage, source⟩ := p
  cases source with
  | direct => simp [router?, routing?] at hp
  | routed r => cases router.root.resolve path <;> rfl

theorem locate_of_resolve {artifact : Artifact} (hp : p.router? = some router)
    (h : router.root.resolve path = some artifact) : p.locate path = .ok artifact.location := by
  rw [locate_eq hp, Router.route?, Router.artifact?, h]
  rfl

theorem locate_of_not_contains (hp : p.router? = some router) (h : p.contains path = false) :
    p.locate path = .error (.notFound path) := by
  rw [contains_of_routed hp, Option.isSome_eq_false_iff, Option.isNone_iff_eq_none] at h
  rw [locate_eq hp, Router.route?, Router.artifact?, h]
  rfl

end Plane

namespace Traffic

/-- What the entry points of a direct plane say of a path after uses. -/
structure Sourced (t : Traffic) (us : List Use) (path : String) (now : Instant) : Prop where
  contains_iff : t.plane.contains path = true ↔ ∃ content, Left us path content
  get_iff : ∀ content,
    (t.get path now).1 = some (.delivered (.ok content)) ↔ Left us path content
  openStream_iff : ∀ content,
    (t.plane.openStream path).1 = .ok (.ok content) ↔ Left us path content
  /-- What is not there is named by its normal form, if it has one. -/
  absent : (∀ content, ¬ Left us path content) → t.plane.contains path = false ∧
    (t.get path now).1 =
      some (.delivered (.error (.notFound ((normalForm? path).getD path)))) ∧
    (t.plane.openStream path).1 = .error (.notFound ((normalForm? path).getD path))

/-- What the entry points of a routed plane without a cache say of a path after uses. -/
structure Routed (t : Traffic) (root : RouteTree) (us : List Use) (path : String)
    (now : Instant) : Prop where
  refused_iff : t.plane.contains path = false ↔
    (t.get path now).1 = some (.delivered (.error (.notFound path))) ∧
    (t.get path now).2.2.plane.storage = t.plane.storage ∧
    (t.plane.openStream path).1 = .error (.notFound path) ∧
    (t.plane.openStream path).2.storage = t.plane.storage
  /-- A refusal does not depend on what is in storage, and changes nothing. -/
  untouched : t.plane.contains path = false → ∀ s u,
    u = t.mapPlane (fun p => p.withStorage s) →
    u.get path now = (some (.delivered (.error (.notFound path))), [], u) ∧
    u.plane.openStream path = (.error (.notFound path), u.plane)
  /-- Else both give what storage gives for the routed location. -/
  served : t.plane.contains path = true → ∃ artifact, root.resolve path = some artifact ∧
    (t.get path now).1 = some (.delivered (t.plane.storage.read artifact.location).1) ∧
    (t.get path now).2.2.plane.storage = (t.plane.storage.read artifact.location).2 ∧
    (t.plane.openStream path).1 = (t.plane.storage.openStream artifact.location).1 ∧
    (t.plane.openStream path).1 = (t.plane.storage.read artifact.location).1.map .ok ∧
    ∀ content, (t.plane.storage.read artifact.location).1 = .ok content ↔
      Left us artifact.location content

variable {t : Traffic} {us : List Use}

theorem Plain.sourced (ht : t.Plain) (hrouter : t.plane.router? = none)
    (hleft : ∀ path content, t.plane.storage.object? path = some content ↔ Left us path content)
    (path : String) (now : Instant) : t.Sourced us path now := by
  have hget := (ht.rest.get_of_uncached ht.cache? path now).1
  have hopen := Plane.openStream_eq_fetch ht.memory path
  rw [Plane.fetch_of_direct hrouter ht.memory] at hget hopen
  have hcontains := Plane.contains_of_direct hrouter ht.memory path
  cases hobject : t.plane.storage.object? path with
  | none =>
    rw [hobject] at hget hopen hcontains
    have habsent : ∀ content, ¬ Left us path content := fun content h =>
      nomatch hobject.symm.trans ((hleft path content).mpr h)
    exact ⟨by simp [hcontains, habsent], by simp [hget, habsent],
      by simp [hopen, Except.map, habsent], fun _ => ⟨hcontains, hget, hopen⟩⟩
  | some content =>
    rw [hobject] at hget hopen hcontains
    have hpresent := (hleft path content).mp hobject
    have hunique : ∀ other, content = other ↔ Left us path other := fun other => by
      rw [← hleft, hobject, Option.some.injEq]
    exact ⟨iff_of_true hcontains ⟨content, hpresent⟩, by simp [hget, hunique],
      by simp [hopen, Except.map, hunique], fun h => absurd hpresent (h content)⟩

theorem Plain.routed (ht : t.Plain) {router : Router} (hrouter : t.plane.router? = some router)
    (hleft : ∀ path content, t.plane.storage.object? path = some content ↔ Left us path content)
    (path : String) (now : Instant) : t.Routed router.root us path now := by
  obtain ⟨hget, hafter⟩ := ht.rest.get_of_uncached ht.cache? path now
  have hopen := Plane.openStream_eq_fetch ht.memory path
  have hcontains := Plane.contains_of_routed hrouter path
  refine ⟨⟨fun hnot => ?_, fun hrefused => ?_⟩, fun hnot s u hu => ?_, fun hroute => ?_⟩
  · have hlocate := Plane.locate_of_not_contains hrouter hnot
    rw [get_of_locate_eq_error hlocate, Plane.openStream, hlocate]
    exact ⟨rfl, rfl, rfl, rfl⟩
  · by_contra hroute
    rw [Bool.not_eq_false, hcontains] at hroute
    obtain ⟨artifact, hresolve⟩ := Option.isSome_iff_exists.mp hroute
    have hlocate := Plane.locate_of_resolve hrouter hresolve
    rw [Plane.fetch, hlocate] at hafter
    exact Storage.read_snd_ne _ _ (hafter.symm.trans hrefused.2.1)
  · have hlocate : u.plane.locate path = .error (.notFound path) := by
      rw [← Plane.locate_of_not_contains hrouter hnot, hu]
      rfl
    rw [get_of_locate_eq_error hlocate, Plane.openStream, hlocate]
    exact ⟨rfl, rfl⟩
  · rw [hcontains] at hroute
    obtain ⟨artifact, hresolve⟩ := Option.isSome_iff_exists.mp hroute
    have hlocate := Plane.locate_of_resolve hrouter hresolve
    rw [Plane.fetch, hlocate] at hget hafter hopen
    refine ⟨artifact, hresolve, hget, hafter, ?_, hopen, fun content => ?_⟩
    · rw [Plane.openStream, hlocate]
    · rw [← hleft, Plane.read_fst, Storage.content_of_memory ht.memory]
      cases t.plane.storage.object? artifact.location <;> simp

/-- A plane without a cache over empty storage begins plain, with a new coalescer if any. -/
theorem plain_ofPlane {source : Source} (hcache : (Plane.mk .inMemory source).cache? = none)
    (hcoalescer : ∀ c, (Plane.mk .inMemory source).coalescer? = some c →
      ∃ shards, c = .ofShards shards) : (ofPlane ⟨.inMemory, source⟩).Plain := by
  refine ⟨⟨⟨fun c hc => ?_, fun c hc => ?_, fun c hc => ?_⟩, rfl, rfl⟩, hcache, [], rfl⟩
  · exact nomatch hcache.symm.trans hc
  · obtain ⟨shards, rfl⟩ := hcoalescer c hc
    exact Coalescer.wellPlaced_ofShards shards
  · obtain ⟨shards, rfl⟩ := hcoalescer c hc
    exact Coalescer.registered?_ofShards shards

/-- A routed plane without a cache, over empty storage in memory. -/
def uncached (root : RouteTree) (shards : Option Nat) (ttl : Duration) : Traffic :=
  ofPlane (.routed .inMemory ⟨⟨root⟩, none, shards.map .ofShards, ttl⟩)

theorem plain_uncached (root : RouteTree) (shards : Option Nat) (ttl : Duration) :
    (uncached root shards ttl).Plain := by
  refine plain_ofPlane rfl fun c hc => ?_
  obtain ⟨n, -, hn⟩ := Option.map_eq_some_iff.mp (show shards.map .ofShards = some c from hc)
  exact ⟨n, hn.symm⟩

/-- Whatever was put and removed, and whoever read in between, the entry points agree: in direct
mode on what was left, in routed mode on where the tree leads. -/
theorem entrances_agree (us : List Use) (path : String) (now : Instant) :
    ((ofPlane (.direct .inMemory)).uses us).Sourced us path now ∧
    ∀ root shards ttl, ((uncached root shards ttl).uses us).Routed root us path now := by
  refine ⟨?_, fun root shards ttl => ?_⟩
  · have hstart : (ofPlane (.direct .inMemory)).Plain :=
      plain_ofPlane rfl fun c hc => nomatch hc
    obtain ⟨hplain, hrouter, hleft⟩ := hstart.uses us
    exact hplain.sourced hrouter (hleft fun _ => rfl) path now
  · obtain ⟨hplain, hrouter, hleft⟩ := (plain_uncached root shards ttl).uses us
    exact hplain.routed hrouter (hleft fun _ => rfl) path now

end Traffic

end ArtifactPlane
