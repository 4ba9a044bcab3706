import ArtifactPlane.Proofs.Index.Stamp
import ArtifactPlane.Proofs.Route.Height

/-!
The forms of route trees in an index.  A timestamp has every text as a form that reads as it;
all else has one form.  The reader of nodes takes the forms of the trees that are not too
high, and the layout of a tree is one of its forms.
-/

namespace ArtifactPlane.Index

/-- The forms of an artifact, and of its absence. -/
inductive ArtifactForm : Option Artifact → Octets → Prop
  | absent : ArtifactForm none [0]
  | present {a : Artifact} {stamp : String} {date place sources : Octets}
    (hstamp : Timestamp.parse stamp = .ok a.builtAt) (hdate : TextForm stamp date)
    (hplace : TextForm a.location place) (hcount : a.dependsOn.length < UInt64.size)
    (hsources : ListForm TextForm a.dependsOn sources) :
    ArtifactForm (some a) (1 :: (date ++ place ++ word a.dependsOn.length ++ sources))

/-- The forms of a node with all below it. -/
inductive NodeForm : RouteTree → Octets → Prop
  | node {segment : String} {children : List RouteTree} {a : Option Artifact}
    {name below own : Octets} (hname : TextForm segment name)
    (hcount : children.length < UInt64.size) (hbelow : ListForm NodeForm children below)
    (hown : ArtifactForm a own) :
    NodeForm ⟨segment, children, a⟩ (name ++ word children.length ++ below ++ own)

/-- The forms of an index: the octets of `RTIX`, the version, and a tree that is not too
high. -/
def IndexForm (t : RouteTree) (bs : Octets) : Prop :=
  ∃ body, bs = Octets.ofString "RTIX" ++ [1, 0] ++ body ∧ NodeForm t body ∧ t.height ≤ maxDepth

theorem readTimestamp_eq :
    readTimestamp = readText >>= fun stamp =>
      outcome (Timestamp.parse stamp) Fault.timestamp := by
  unfold readTimestamp
  congr 1
  funext stamp
  cases Timestamp.parse stamp <;> rfl

theorem reads_readTimestamp : Reads readTimestamp fun t bs =>
    ∃ stamp, Timestamp.parse stamp = .ok t ∧ TextForm stamp bs := by
  rw [readTimestamp_eq]
  apply (reads_readText.bind fun stamp => reads_outcome _ Fault.timestamp).congr
  intro t bs
  constructor
  · rintro ⟨stamp, front, _, rfl, hfront, hstamp, rfl⟩
    exact ⟨stamp, hstamp, by simpa using hfront⟩
  · rintro ⟨stamp, hstamp, hbs⟩
    exact ⟨stamp, bs, [], by simp, hbs, hstamp, rfl⟩

/-- What follows the tag of an artifact that is there. -/
theorem reads_present : Reads
    (do
      let builtAt ← readTimestamp
      let location ← readText
      let dependsOn ← readMany readText (← Reader.word)
      return some ⟨builtAt, location, dependsOn⟩)
    fun a bs => ArtifactForm a (1 :: bs) := by
  apply (reads_readTimestamp.bind fun builtAt => reads_readText.bind fun location =>
    Reader.reads_word.bind fun n => (reads_readMany reads_readText n).bind fun dependsOn =>
      Reads.pure (some (⟨builtAt, location, dependsOn⟩ : Artifact))).congr
  intro a bs
  constructor
  · rintro ⟨builtAt, date, _, rfl, ⟨stamp, hstamp, hdate⟩, location, place, _, rfl, hplace, n, _,
      _, rfl, ⟨hn, rfl⟩, dependsOn, sources, _, rfl, ⟨rfl, hsources⟩, rfl, rfl⟩
    simpa using ArtifactForm.present (a := ⟨builtAt, location, dependsOn⟩) hstamp hdate hplace hn
      hsources
  · intro h
    cases h with
    | @present a stamp date place sources hstamp hdate hplace hcount hsources =>
      exact ⟨a.builtAt, date, _, by simp, ⟨stamp, hstamp, hdate⟩, a.location, place, _, rfl, hplace,
        a.dependsOn.length, _, _, rfl, ⟨hcount, rfl⟩, a.dependsOn, sources, [],
        (List.append_nil _).symm, ⟨rfl, hsources⟩, rfl, rfl⟩

theorem reads_readArtifact : Reads readArtifact ArtifactForm := by
  have htagged : ∀ tag : UInt8, Reads
      (if tag = 0 then pure none
        else if tag = 1 then do
          let builtAt ← readTimestamp
          let location ← readText
          let dependsOn ← readMany readText (← Reader.word)
          return some ⟨builtAt, location, dependsOn⟩
        else throw (Fault.artifactTag tag) : Reader (Option Artifact))
      fun a bs => ArtifactForm a (tag :: bs) := by
    intro tag
    by_cases hzero : tag = 0
    · subst hzero
      rw [if_pos rfl]
      apply (Reads.pure none).congr
      intro a bs
      constructor
      · rintro ⟨rfl, rfl⟩
        exact .absent
      · intro h
        cases h
        exact ⟨rfl, rfl⟩
    · rw [if_neg hzero]
      by_cases hone : tag = 1
      · subst hone
        rw [if_pos rfl]
        exact reads_present
      · rw [if_neg hone]
        apply (Reads.throw (Fault.artifactTag tag)).congr
        intro a bs
        constructor
        · exact False.elim
        · intro h
          cases h with
          | absent => exact hzero rfl
          | present => exact hone rfl
  apply (Reader.reads_octet.bind htagged).congr
  intro a bs
  constructor
  · rintro ⟨tag, _, back, rfl, rfl, h⟩
    exact h
  · intro h
    cases h with
    | absent => exact ⟨0, [0], [], rfl, rfl, .absent⟩
    | present hstamp hdate hplace hcount hsources =>
      exact ⟨1, [1], _, rfl, rfl, .present hstamp hdate hplace hcount hsources⟩

theorem listForm_and_iff {α : Type} {form : α → Octets → Prop} {P : α → Prop} {as : List α}
    {bs : Octets} :
    ListForm (fun a bs => form a bs ∧ P a) as bs ↔ ListForm form as bs ∧ ∀ a ∈ as, P a := by
  induction as generalizing bs with
  | nil =>
    constructor
    · rintro ⟨⟩
      exact ⟨.nil, by simp⟩
    · rintro ⟨⟨⟩, -⟩
      exact .nil
  | cons a as ih =>
    simp only [listForm_cons_iff, ih, List.forall_mem_cons]
    constructor
    · rintro ⟨front, back, rfl, ⟨hfirst, hP⟩, hrest, hall⟩
      exact ⟨⟨front, back, rfl, hfirst, hrest⟩, hP, hall⟩
    · rintro ⟨⟨front, back, rfl, hfirst, hrest⟩, hP, hall⟩
      exact ⟨front, back, rfl, ⟨hfirst, hP⟩, hrest, hall⟩

theorem reads_readNode (levels : Nat) :
    Reads (readNode levels) fun t bs => NodeForm t bs ∧ t.height ≤ levels := by
  induction levels with
  | zero =>
    apply (Reads.throw .tooDeep).congr
    intro t bs
    have hpos := t.height_pos
    constructor
    · exact False.elim
    · rintro ⟨-, hlow⟩
      omega
  | succ levels ih =>
    apply (reads_readText.bind fun segment => Reader.reads_word.bind fun n =>
      (reads_readMany ih n).bind fun children => reads_readArtifact.bind fun a =>
        Reads.pure (⟨segment, children, a⟩ : RouteTree)).congr
    intro t bs
    constructor
    · rintro ⟨segment, name, _, rfl, hname, n, _, _, rfl, ⟨hn, rfl⟩, children, below, _, rfl,
        ⟨rfl, hbelow⟩, a, own, _, rfl, hown, rfl, rfl⟩
      obtain ⟨hforms, hlow⟩ := listForm_and_iff.mp hbelow
      refine ⟨?_, (RouteTree.height_le_succ_iff _ _).mpr hlow⟩
      simpa using NodeForm.node hname hn hforms hown
    · rintro ⟨hform, hlow⟩
      cases hform with
      | @node segment children a name below own hname hcount hbelow hown =>
        have hchildren := (RouteTree.height_le_succ_iff _ _).mp hlow
        exact ⟨segment, name, _, by simp, hname, children.length, _, _, rfl, ⟨hcount, rfl⟩,
          children, below, _, rfl, ⟨rfl, listForm_and_iff.mpr ⟨hbelow, hchildren⟩⟩, a, own, [],
          (List.append_nil _).symm, hown, rfl, rfl⟩

/-- The lengths of the texts and lists of a node fit words. -/
structure Fits (t : RouteTree) : Prop where
  segment : Writable t.segment
  children : t.children.length < UInt64.size
  location : ∀ a, t.artifact = some a → Writable a.location
  dependsOn : ∀ a, t.artifact = some a → a.dependsOn.length < UInt64.size
  dependency : ∀ a, t.artifact = some a → ∀ source ∈ a.dependsOn, Writable source

/-- The timestamp of a node reads back from its written form. -/
def ReadsBack (t : RouteTree) : Prop :=
  ∀ a, t.artifact = some a → Timestamp.parse a.builtAt.render = .ok a.builtAt

theorem listForm_flatMap {α : Type} {form : α → Octets → Prop} {layout : α → Octets} {as : List α}
    (h : ∀ a ∈ as, form a (layout a)) : ListForm form as (as.flatMap layout) := by
  induction as with
  | nil => exact .nil
  | cons a as ih =>
    rw [List.flatMap_cons]
    exact .cons (h a List.mem_cons_self) (ih fun b hb => h b (List.mem_cons_of_mem a hb))

theorem nodes_eq_flatMap (ts : List RouteTree) : nodes ts = ts.flatMap node := by
  induction ts with
  | nil => rfl
  | cons t ts ih => rw [nodes, ih, List.flatMap_cons]

theorem artifactForm_artifact {t : RouteTree} (hfits : Fits t) (hback : ReadsBack t) :
    ArtifactForm t.artifact (artifact t.artifact) := by
  cases ha : t.artifact with
  | none => exact .absent
  | some a =>
    have hstamp := hback a ha
    have hshort := (Timestamp.bounded_of_parse hstamp).writable_render
    refine .present hstamp ⟨hshort, rfl⟩ ⟨hfits.location a ha, rfl⟩ (hfits.dependsOn a ha) ?_
    exact listForm_flatMap fun source hsource => ⟨hfits.dependency a ha source hsource, rfl⟩

/-- The layout of a tree is a form of the tree. -/
theorem nodeForm_node (t : RouteTree) (hfits : t.Every Fits) (hback : t.Every ReadsBack) :
    NodeForm t (node t) := by
  induction t using RouteTree.induction with
  | node segment children a ih =>
    rw [node, nodes_eq_flatMap]
    refine .node ⟨hfits.here.segment, rfl⟩ hfits.here.children ?_
      (artifactForm_artifact hfits.here hback.here)
    exact listForm_flatMap fun c hc => ih c hc (hfits.of_mem hc) (hback.of_mem hc)

theorem forall_of_listForm {α : Type} {form : α → Octets → Prop} {P : α → Prop} {as : List α}
    {bs : Octets} (h : ListForm form as bs) (hP : ∀ a ∈ as, ∀ bs, form a bs → P a) :
    ∀ a ∈ as, P a := by
  induction h with
  | nil => simp
  | cons hfirst hrest ih =>
    rw [List.forall_mem_cons] at hP ⊢
    exact ⟨hP.1 _ hfirst, ih hP.2⟩

/-- What has a form has lengths that fit words. -/
theorem every_fits_of_nodeForm {t : RouteTree} {bs : Octets} (h : NodeForm t bs) :
    t.Every Fits := by
  induction t using RouteTree.induction generalizing bs with
  | node segment children a ih =>
    cases h with
    | node hname hcount hbelow hown =>
      refine .node ?_ (forall_of_listForm hbelow fun c hc _ hform => ih c hc hform)
      cases hown with
      | absent => exact ⟨hname.1, hcount, by simp, by simp, by simp⟩
      | present hstamp hdate hplace hsome hsources =>
        refine ⟨hname.1, hcount, ?_, ?_, ?_⟩
        · rintro _ ⟨⟩
          exact hplace.1
        · rintro _ ⟨⟩
          exact hsome
        · rintro _ ⟨⟩
          exact forall_of_listForm hsources fun _ _ _ hform => hform.1

end ArtifactPlane.Index
