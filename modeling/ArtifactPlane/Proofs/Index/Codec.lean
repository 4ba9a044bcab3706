import ArtifactPlane.Proofs.Index.Form
import ArtifactPlane.Route.Router

/-!
Encoding and decoding.  The scan passes over every form of a node that is not too high, so
it refuses nothing that the reader of nodes would take.  Hence decoding takes exactly the
forms of an index; it undoes encoding, and it takes what it has taken when that is encoded
again.
-/

namespace ArtifactPlane.Index

namespace Scan

theorem finish_of_step {s t : Scan} (h : s.step = .ok (some t)) : s.finish = t.finish := by
  rw [finish]
  split <;> simp_all

theorem finish_closed (rest : Octets) : (Scan.mk rest .close []).finish = .ok rest := by
  rw [finish]
  split <;> simp_all [step]

theorem counted_text {s : String} {bs : Octets} (h : TextForm s bs) (rest : Octets) :
    Reader.counted (bs ++ rest) = .ok (Octets.ofString s, rest) :=
  (Reader.reads_counted _ _ _).mpr ⟨bs, rfl, h⟩

theorem word_append {n : Nat} (h : n < UInt64.size) (rest : Octets) :
    Reader.word (word n ++ rest) = .ok (n, rest) :=
  (Reader.reads_word _ _ _).mpr ⟨word n, rfl, h, rfl⟩

theorem finish_dependencies {sources : List String} {bs : Octets}
    (h : ListForm TextForm sources bs) (rest : Octets) (outer : List Nat) :
    (Scan.mk (bs ++ rest) (.dependencies sources.length) outer).finish =
      (Scan.mk rest .close outer).finish := by
  induction h with
  | nil => exact finish_of_step rfl
  | @cons source sources front back hfirst hrest ih =>
    rw [← ih]
    apply finish_of_step
    simp [step, counted_text hfirst, bind, Except.bind]

theorem finish_artifact {a : Option Artifact} {bs : Octets} (h : ArtifactForm a bs)
    (rest : Octets) (outer : List Nat) :
    (Scan.mk (bs ++ rest) .close (0 :: outer)).finish = (Scan.mk rest .close outer).finish := by
  cases h with
  | absent => exact finish_of_step rfl
  | @present a stamp date place sources hstamp hdate hplace hcount hsources =>
    rw [← finish_dependencies hsources rest outer]
    apply finish_of_step
    simp [step, closeNode, Reader.octet, bind, Except.bind, counted_text hdate, counted_text hplace,
      word_append hcount, Except.map]

/-- The scan passes over the children of a node where it passes over each of them. -/
theorem finish_children {children : List RouteTree} {bs : Octets} {outer : List Nat}
    (h : ListForm NodeForm children bs)
    (hpass : ∀ c ∈ children, ∀ front rest pending, NodeForm c front →
      (Scan.mk (front ++ rest) .node (pending :: outer)).finish =
        (Scan.mk rest .close (pending :: outer)).finish)
    (rest : Octets) :
    (Scan.mk (bs ++ rest) .close (children.length :: outer)).finish =
      (Scan.mk rest .close (0 :: outer)).finish := by
  induction h with
  | nil => rfl
  | @cons c cs front back hfirst hrest ih =>
    have hnext : (Scan.mk (front ++ back ++ rest) .close ((c :: cs).length :: outer)).step =
        .ok (some ⟨front ++ (back ++ rest), .node, cs.length :: outer⟩) := by
      simp [step]
    rw [finish_of_step hnext, hpass c List.mem_cons_self front _ _ hfirst]
    exact ih fun d hd => hpass d (List.mem_cons_of_mem c hd)

/-- The scan passes over the form of a node where there is room for its height. -/
theorem finish_node {t : RouteTree} {bs : Octets} (h : NodeForm t bs) (rest : Octets)
    (outer : List Nat) (hroom : outer.length + t.height ≤ maxDepth) :
    (Scan.mk (bs ++ rest) .node outer).finish = (Scan.mk rest .close outer).finish := by
  induction t using RouteTree.induction generalizing bs rest outer with
  | node segment children a ih =>
    cases h with
    | @node _ _ _ name below own hname hcount hbelow hown =>
      have hheight := RouteTree.height_eq ⟨segment, children, a⟩
      have hdeep : ¬ maxDepth ≤ outer.length := by omega
      have hopen : (Scan.mk (name ++ word children.length ++ below ++ own ++ rest) .node
          outer).step =
          .ok (some ⟨below ++ (own ++ rest), .close, children.length :: outer⟩) := by
        simp [step, openNode, bind, Except.bind, counted_text hname, word_append hcount, hdeep,
          Except.map]
      rw [finish_of_step hopen, ← finish_artifact hown rest outer]
      apply finish_children hbelow
      intro c hc front left pending hform
      apply ih c hc hform
      have hlow := (RouteTree.heightAll_le_iff children _).mp (Nat.le_refl _) c hc
      rw [List.length_cons]
      simp only at hheight
      omega

end Scan

theorem checkDepth_of_nodeForm {t : RouteTree} {bs : Octets} (h : NodeForm t bs)
    (hlow : t.height ≤ maxDepth) : checkDepth bs = .ok () := by
  have hfinish := Scan.finish_node h [] [] (by simpa using hlow)
  rw [List.append_nil, Scan.finish_closed] at hfinish
  rw [checkDepth, Scan.start, hfinish]
  rfl

theorem payload_eq_ok_iff {bs body : Octets} :
    payload bs = .ok body ↔ bs = Octets.ofString "RTIX" ++ [1, 0] ++ body := by
  have hmagic : Octets.ofString "RTIX" = magic := by decide
  rw [hmagic]
  constructor
  · intro h
    unfold payload at h
    split at h
    · simp at h
    · next hlong =>
      split at h
      · simp at h
      · next htake =>
        dsimp only at h
        split at h
        · simp at h
        · next hversion =>
          obtain rfl := Except.ok.inj h
          have hlength : ((bs.drop 4).take 2).length = 2 := by
            simp only [headerSize] at hlong
            simp only [List.length_take, List.length_drop]
            omega
          obtain ⟨hdigits, -⟩ := digits_littleEndian ((bs.drop 4).take 2)
          rw [hlength, Decidable.not_not.mp hversion] at hdigits
          have hpair : (bs.drop 4).take 2 = [1, 0] := hdigits.symm
          rw [← Decidable.not_not.mp htake, ← hpair, List.append_assoc]
          have hrest : bs.drop headerSize = (bs.drop 4).drop 2 := by
            rw [List.drop_drop]
            rfl
          rw [hrest, List.take_append_drop, List.take_append_drop]
  · rintro rfl
    rfl

theorem decode_eq_ok {t : RouteTree} {bs : Octets} :
    decode bs = .ok t ↔ ∃ body, payload bs = .ok body ∧ checkDepth body = .ok () ∧
      readNode maxDepth body = .ok (t, []) := by
  simp only [decode, bind, Except.bind]
  cases payload bs with
  | error fault => simp
  | ok body =>
    cases hscan : checkDepth body with
    | error fault => simp [hscan]
    | ok _ =>
      cases hread : readNode maxDepth body with
      | error fault => simp [hscan, hread]
      | ok p =>
        obtain ⟨u, rest⟩ := p
        cases rest with
        | nil => simp [hscan, hread]
        | cons b rest => simp [hscan, hread]

/-- Decoding takes exactly the forms of an index. -/
theorem decode_eq_ok_iff {t : RouteTree} {bs : Octets} : decode bs = .ok t ↔ IndexForm t bs := by
  rw [decode_eq_ok]
  constructor
  · rintro ⟨body, hbody, -, hread⟩
    obtain ⟨front, hfront, hform, hlow⟩ := (reads_readNode maxDepth _ _ _).mp hread
    obtain rfl : body = front := by simpa using hfront
    exact ⟨body, payload_eq_ok_iff.mp hbody, hform, hlow⟩
  · rintro ⟨body, hbody, hform, hlow⟩
    refine ⟨body, payload_eq_ok_iff.mpr hbody, checkDepth_of_nodeForm hform hlow, ?_⟩
    exact (reads_readNode maxDepth _ _ _).mpr ⟨body, by simp, hform, hlow⟩

theorem IndexForm.eq_of_append {t u : RouteTree} {bs more : Octets} (ht : IndexForm t bs)
    (hu : IndexForm u (bs ++ more)) : t = u ∧ more = [] := by
  obtain ⟨body, rfl, hform, hlow⟩ := ht
  obtain ⟨longer, hlonger, hforms, hlows⟩ := hu
  rw [List.append_assoc, List.append_cancel_left_eq] at hlonger
  obtain rfl := hlonger
  exact (reads_readNode maxDepth).eq_of_append ⟨hform, hlow⟩ ⟨hforms, hlows⟩

theorem encode_eq_ok_iff {t : RouteTree} {bs : Octets} :
    encode t = .ok bs ↔ t.height ≤ maxDepth ∧ bs = header ++ node t := by
  rw [encode, RouteTree.depth_eq_height]
  split
  · next hdeep => simp [Nat.not_le_of_lt hdeep]
  · next hlow => simp [Nat.le_of_not_lt hlow, eq_comm]

theorem indexForm_of_encode {t : RouteTree} {bs : Octets} (hfits : t.Every Fits)
    (hback : t.Every ReadsBack) (h : encode t = .ok bs) : IndexForm t bs := by
  obtain ⟨hlow, rfl⟩ := encode_eq_ok_iff.mp h
  have hheader : header = Octets.ofString "RTIX" ++ [1, 0] := by decide
  exact ⟨node t, by rw [hheader], nodeForm_node t hfits hback, hlow⟩

/-- A tree is encoded exactly if it is not too high.  Decoding gives the tree again, and
takes neither less than the whole index nor more. -/
theorem decode_encode (t : RouteTree) (hfits : t.Every Fits) (hback : t.Every ReadsBack) :
    ((∃ bs, encode t = .ok bs) ↔ t.height ≤ maxDepth) ∧
      ∀ bs, encode t = .ok bs → decode bs = .ok t ∧
        (∀ front, front <+: bs → front ≠ bs → ∀ u, decode front ≠ .ok u) ∧
        (∀ longer, bs <+: longer → longer ≠ bs → ∀ u, decode longer ≠ .ok u) := by
  refine ⟨?_, fun bs hbs => ?_⟩
  · simp only [encode_eq_ok_iff, exists_and_left, exists_eq, and_true]
  · have hform := indexForm_of_encode hfits hback hbs
    refine ⟨decode_eq_ok_iff.mpr hform, ?_, ?_⟩
    · rintro front ⟨more, rfl⟩ hne u hu
      obtain ⟨-, rfl⟩ := (decode_eq_ok_iff.mp hu).eq_of_append hform
      simp at hne
    · rintro _ ⟨more, rfl⟩ hne u hu
      obtain ⟨-, rfl⟩ := hform.eq_of_append (decode_eq_ok_iff.mp hu)
      simp at hne

/-- A tree with siblings of one segment and an empty segment below the root. -/
def siblings : RouteTree :=
  ⟨"", [⟨"a", [], some ⟨⟨19723, 3600, 250000000⟩, "dist/a", ["src/a", ""]⟩⟩,
    ⟨"a", [⟨"", [], none⟩], none⟩], none⟩

theorem decode_encode_siblings :
    siblings.Every Fits ∧ siblings.Every ReadsBack ∧ siblings.height ≤ maxDepth ∧
      ∃ bs, encode siblings = .ok bs ∧ decode bs = .ok siblings := by
  have hbare : ∀ (segment : String) (children : List RouteTree), Writable segment →
      children.length < UInt64.size → Fits ⟨segment, children, none⟩ :=
    fun _ _ hsegment hchildren => ⟨hsegment, hchildren, by simp, by simp, by simp⟩
  have hfits : siblings.Every Fits := by
    simp only [siblings, RouteTree.every_node_iff, List.forall_mem_cons]
    refine ⟨hbare _ _ (by decide) (by decide), ⟨?_, by simp⟩,
      ⟨hbare _ _ (by decide) (by decide), ⟨hbare _ _ (by decide) (by decide), by simp⟩, by simp⟩,
      by simp⟩
    refine ⟨by decide, by decide, ?_, ?_, ?_⟩
    · rintro _ ⟨⟩
      decide
    · rintro _ ⟨⟩
      decide
    · rintro _ ⟨⟩
      decide
  have hback : siblings.Every ReadsBack := by
    simp only [siblings, RouteTree.every_node_iff, List.forall_mem_cons]
    simp [ReadsBack]
    rfl
  have hlow : siblings.height ≤ maxDepth := by decide
  obtain ⟨hencoded, hdecoded⟩ := decode_encode siblings hfits hback
  obtain ⟨bs, hbs⟩ := hencoded.mpr hlow
  exact ⟨hfits, hback, hlow, bs, hbs, (hdecoded bs hbs).1⟩

/-- The octets that decoding takes are those that the format allows, and all others are
refused with a fault of decoding.  The scan refuses nothing that the reader of nodes takes
within the limit, whatever levels that reader may go down, and what was decoded can be encoded
and decoded again. -/
theorem decode_exact (bs : Octets) :
    (∀ t, decode bs = .ok t ↔ IndexForm t bs) ∧
      ((∀ t, ¬ IndexForm t bs) →
        ∃ fault, decode bs = .error fault ∧ Router.load bs = .error (.decode fault)) ∧
      (∀ body levels t, payload bs = .ok body → readNode levels body = .ok (t, []) →
        t.height ≤ maxDepth → checkDepth body = .ok () ∧ decode bs = .ok t) ∧
      ∀ t, decode bs = .ok t → t.Every ReadsBack →
        ∃ again, encode t = .ok again ∧ decode again = .ok t := by
  refine ⟨fun t => decode_eq_ok_iff, fun hnone => ?_, ?_, ?_⟩
  · cases hdecode : decode bs with
    | error fault =>
      refine ⟨fault, rfl, ?_⟩
      unfold Router.load
      rw [hdecode]
      rfl
    | ok t => exact absurd (decode_eq_ok_iff.mp hdecode) (hnone t)
  · intro body levels t hbody hread hlow
    obtain ⟨front, hfront, hform, -⟩ := (reads_readNode levels _ _ _).mp hread
    obtain rfl : body = front := by simpa using hfront
    exact ⟨checkDepth_of_nodeForm hform hlow,
      decode_eq_ok_iff.mpr ⟨body, payload_eq_ok_iff.mp hbody, hform, hlow⟩⟩
  · intro t ht hback
    obtain ⟨body, -, hform, hlow⟩ := decode_eq_ok_iff.mp ht
    have hencode := encode_eq_ok_iff.mpr ⟨hlow, rfl⟩
    have hagain := indexForm_of_encode (every_fits_of_nodeForm hform) hback hencode
    exact ⟨header ++ node t, hencode, decode_eq_ok_iff.mpr hagain⟩

/-- A tree of one node. -/
def lone : RouteTree := ⟨"", [], some ⟨⟨19723, 3600, 0⟩, "dist/a", []⟩⟩

/-- An index of that tree with a timestamp in fewer characters than the written form. -/
def terse : Octets :=
  Octets.ofString "RTIX" ++ [1, 0] ++ (text "" ++ word 0 ++ [] ++
    (1 :: (text "2024-1-1 1:0:0z" ++ text "dist/a" ++ word 0 ++ [])))

theorem decode_exact_terse : decode terse = .ok lone ∧ lone.Every ReadsBack ∧
    ∃ again, encode lone = .ok again ∧ again ≠ terse ∧ decode again = .ok lone := by
  have hstamp : Timestamp.parse "2024-1-1 1:0:0z" = .ok ⟨19723, 3600, 0⟩ := by
    rfl
  have hform : IndexForm lone terse := by
    refine ⟨_, rfl, .node ⟨by decide, rfl⟩ (by decide) .nil ?_, by decide⟩
    exact .present hstamp ⟨by decide, rfl⟩ ⟨by decide, rfl⟩ (by decide) .nil
  have hback : lone.Every ReadsBack := by
    refine .node ?_ (by simp [lone])
    rintro _ ⟨⟩
    rfl
  obtain ⟨hexact, -, -, hagain⟩ := decode_exact terse
  have hdecode := (hexact lone).mpr hform
  obtain ⟨again, hencode, hdecoded⟩ := hagain lone hdecode hback
  refine ⟨hdecode, hback, again, hencode, ?_, hdecoded⟩
  obtain ⟨-, rfl⟩ := encode_eq_ok_iff.mp hencode
  decide +kernel

end ArtifactPlane.Index
