import ArtifactPlane.FileTree
import ArtifactPlane.Proofs.Path.Components
import ArtifactPlane.Proofs.Plane.Phases

/-!
Object paths stay below their base.  The file of an object is the base directory followed by
the names of the normal form, so a walk to it goes to the base and from there only down.  No
file elsewhere is ever looked at, whatever path is asked for.
-/

namespace ArtifactPlane

open ArtifactPlane.Path (Ordinary Component components normalForm? under steps)

namespace FileNode

/-- What a directory has in it, and all that is within that. -/
inductive Within : FileNode → FileNode → Prop
  | entry {entries : List (String × FileNode)} {name : String} {n : FileNode}
    (h : entries.lookup name = some n) : Within (directory entries) n
  | deeper {entries : List (String × FileNode)} {name : String} {n m : FileNode}
    (h : entries.lookup name = some n) (hin : Within n m) : Within (directory entries) m

variable {around : List FileNode} {n m : FileNode} {entries : List (String × FileNode)}
  {name : String} {xs ys : List String}

theorem walk_nil (around : List FileNode) (n : FileNode) : walk around n [] = .ok n := by
  rw [walk]

theorem walk_cons (around : List FileNode) (entries : List (String × FileNode)) (name : String)
    (ys : List String) :
    walk around (directory entries) (name :: ys) =
      if name = "" ∨ name = "." then walk around (directory entries) ys
      else if name = ".." then
        match around with
        | [] => walk [] (directory []) ys
        | outer :: around => walk around outer ys
      else if nameLimit < name.utf8ByteSize then .error .nameTooLong
      else match entries.lookup name with
        | none => .error .noEntry
        | some n => walk (directory entries :: around) n ys := by
  exact (walk.eq_def ..).trans rfl

/-- A name leads to what the directory has under it. -/
theorem walk_name (h : Ordinary name.toList) :
    walk around (directory entries) (name :: ys) =
      if nameLimit < name.utf8ByteSize then .error .nameTooLong
      else match entries.lookup name with
        | none => .error .noEntry
        | some n => walk (directory entries :: around) n ys := by
  have hidle : ¬ (name = "" ∨ name = ".") := by
    rintro (rfl | rfl)
    · exact h.ne_nil rfl
    · exact h.ne_here rfl
  have hup : name ≠ ".." := by
    rintro rfl
    exact h.ne_up rfl
  rw [walk_cons, if_neg hidle, if_neg hup]

/-- Names lead down. -/
theorem within_of_walk (hys : ∀ y ∈ ys, Ordinary y.toList) (hne : ys ≠ [])
    (h : walk around n ys = .ok m) : n.Within m := by
  induction ys generalizing around n with
  | nil => exact absurd rfl hne
  | cons y ys ih =>
    rw [List.forall_mem_cons] at hys
    cases n with
    | file content => simp [walk] at h
    | directory entries =>
      rw [walk_name hys.1] at h
      split at h
      · simp at h
      · split at h
        · simp at h
        · next n hn =>
          by_cases hlast : ys = []
          · rw [hlast, walk_nil] at h
            exact .entry (Except.ok.inj h ▸ hn)
          · exact .deeper hn (ih hys.2 hlast h)

/-- A walk that ends with names goes down from where it came to before them. -/
theorem walk_append (hys : ∀ y ∈ ys, Ordinary y.toList) (hne : ys ≠ [])
    (h : walk around n (xs ++ ys) = .ok m) : ∃ d, walk around n xs = .ok d ∧ d.Within m := by
  induction xs generalizing around n with
  | nil => exact ⟨n, walk_nil around n, within_of_walk hys hne h⟩
  | cons x xs ih =>
    cases n with
    | file content => simp [walk] at h
    | directory entries =>
      rw [List.cons_append, walk_cons] at h
      rw [walk_cons]
      by_cases hidle : x = "" ∨ x = "."
      · rw [if_pos hidle] at h ⊢
        exact ih h
      · rw [if_neg hidle] at h ⊢
        by_cases hup : x = ".."
        · rw [if_pos hup] at h ⊢
          cases around <;> exact ih h
        · rw [if_neg hup] at h ⊢
          split at h
          · simp at h
          · next hshort =>
            rw [if_neg hshort]
            split at h
            · simp at h
            · exact ih h

/-- An empty name on the way changes nothing. -/
theorem walk_append_empty (hne : ys ≠ []) :
    walk around n (xs ++ "" :: ys) = walk around n (xs ++ ys) := by
  induction xs generalizing around n with
  | nil =>
    obtain ⟨y, ys, rfl⟩ := List.exists_cons_of_ne_nil hne
    cases n <;> simp [walk]
  | cons x xs ih =>
    cases n with
    | file content => simp [walk]
    | directory entries => simp only [List.cons_append, walk_cons, ih]

end FileNode

namespace FileTree

/-- The directory that a path starts from. -/
def root (t : FileTree) (path : String) : FileNode :=
  if path.toList.head? = some '/' then .directory [] else .directory t.entries

theorem mapError_eq_ok_iff {α ε ε' : Type} {x : Except ε α} {f : ε → ε'} {a : α} :
    x.mapError f = .ok a ↔ x = .ok a := by
  cases x with
  | error e => exact iff_of_false (by rintro ⟨⟩) (by rintro ⟨⟩)
  | ok b => exact ⟨by rintro ⟨⟩; rfl, by rintro ⟨⟩; rfl⟩

theorem find_eq_ok_iff {t : FileTree} {path : String} {n : FileNode} :
    t.find path = .ok n ↔ '\x00' ∉ path.toList ∧ path ≠ "" ∧ path.utf8ByteSize ≤ pathLimit ∧
      FileNode.walk [] (t.root path) (names path) = .ok n := by
  rw [find, root]
  by_cases hnul : '\x00' ∈ path.toList
  · simp [hnul]
  · by_cases hempty : path = ""
    · simp [hempty]
    · by_cases hlong : pathLimit < path.utf8ByteSize
      · simp [hnul, hempty, hlong, Nat.not_le.mpr hlong]
      · rw [← root]
        simp [hnul, hempty, hlong, Nat.not_lt.mp hlong, mapError_eq_ok_iff]

theorem names_eq (path : String) : names path = (path.toList.splitOn '/').map String.ofList := by
  rw [names, Path.pieces_eq_splitOn]

end FileTree

namespace Path

/-- A directory as a path of its own: an empty path is that of the current directory. -/
def home (base : String) : String := if base = "" then "." else base

/-- Whether names lead on from the components of a directory to those of a file. -/
def Below (base file : String) : Prop :=
  ∃ names, names ≠ [] ∧ (∀ n ∈ names, Ordinary n) ∧
    components file = components base ++ names.map .name

variable {base path : String}

theorem ordinary_of_mem_names (h : ∀ c ∈ path.toList.splitOn '/', Ordinary c) :
    ∀ n ∈ FileTree.names path, Ordinary n.toList := by
  intro n hn
  rw [FileTree.names_eq, List.mem_map] at hn
  obtain ⟨c, hc, rfl⟩ := hn
  rw [String.toList_ofList]
  exact h c hc

theorem names_ne_nil (path : String) : FileTree.names path ≠ [] := by
  rw [FileTree.names_eq, ne_eq, List.map_eq_nil_iff]
  exact List.splitOn_ne_nil '/' _

/-- A walk to a path below a directory passes the directory. -/
theorem walk_under (hbase : base ≠ "") (h : ∀ c ∈ path.toList.splitOn '/', Ordinary c)
    (around : List FileNode) (n : FileNode) :
    FileNode.walk around n (FileTree.names (under base path)) =
      FileNode.walk around n (FileTree.names base ++ FileTree.names path) := by
  obtain ⟨dir, hdir, hunder⟩ := toList_under hbase (head?_ne_slash h)
  have hnames : FileTree.names (under base path) =
      (dir.splitOn '/').map String.ofList ++ FileTree.names path := by
    rw [FileTree.names_eq, FileTree.names_eq, hunder, List.splitOn_append_cons_self,
      List.map_append]
  rw [hnames, FileTree.names_eq base]
  rcases hdir with hdir | hdir
  · rw [hdir]
  · rw [hdir, List.splitOn_append_cons_self, List.splitOn_nil, List.map_append, List.append_assoc]
    exact (FileNode.walk_append_empty (names_ne_nil path)).symm

/-- It starts from where a walk to the directory does. -/
theorem root_under (t : FileTree) (hbase : base ≠ "")
    (h : ∀ c ∈ path.toList.splitOn '/', Ordinary c) :
    t.root (under base path) = t.root base := by
  obtain ⟨dir, hdir, hunder⟩ := toList_under hbase (head?_ne_slash h)
  have hhead : (under base path).toList.head? = base.toList.head? := by
    rw [hunder]
    cases dir with
    | nil =>
      have hnil : base.toList ≠ [] := mt String.toList_eq_nil_iff.mp hbase
      rw [hdir.resolve_left hnil]
      rfl
    | cons c dir => rcases hdir with hdir | hdir <;> rw [hdir] <;> rfl
  rw [FileTree.root, FileTree.root, hhead]

theorem under_eq_append (hbase : base ≠ "") (hpath : path.toList.head? ≠ some '/') :
    ∃ rest, under base path = base ++ rest := by
  rw [under, if_neg (not_or.mpr ⟨hpath, hbase⟩)]
  split
  · exact ⟨path, rfl⟩
  · exact ⟨"/" ++ path, String.append_assoc⟩

/-- What is found below a directory is within what the directory is found to be. -/
theorem within_of_find {t : FileTree} {n : FileNode}
    (h : ∀ c ∈ path.toList.splitOn '/', Ordinary c) (hfind : t.find (under base path) = .ok n) :
    ∃ d, t.find (home base) = .ok d ∧ d.Within n := by
  obtain ⟨hnul, -, hshort, hwalk⟩ := FileTree.find_eq_ok_iff.mp hfind
  have hnames := ordinary_of_mem_names h
  by_cases hbase : base = ""
  · have hunder : under base path = path := by rw [under, if_pos (Or.inr hbase)]
    have hroot : t.root path = .directory t.entries := if_neg (head?_ne_slash h)
    rw [hunder, hroot] at hwalk
    refine ⟨.directory t.entries, ?_, FileNode.within_of_walk hnames (names_ne_nil path) hwalk⟩
    rw [home, if_pos hbase, FileTree.find_eq_ok_iff]
    refine ⟨by decide, by decide, by decide, ?_⟩
    have hdot : FileTree.names "." = ["."] := by decide
    rw [hdot, FileTree.root, if_neg (by decide), FileNode.walk_cons, if_pos (Or.inr rfl),
      FileNode.walk_nil]
  · rw [walk_under hbase h, root_under t hbase h] at hwalk
    obtain ⟨d, hd, hwithin⟩ := FileNode.walk_append hnames (names_ne_nil path) hwalk
    refine ⟨d, ?_, hwithin⟩
    obtain ⟨rest, hrest⟩ := under_eq_append hbase (head?_ne_slash h)
    rw [hrest, String.toList_append, List.mem_append, not_or] at hnul
    rw [hrest, String.utf8ByteSize_append] at hshort
    rw [home, if_neg hbase, FileTree.find_eq_ok_iff]
    exact ⟨hnul.1, hbase, Nat.le_trans (Nat.le_add_right _ _) hshort, hd⟩

end Path

namespace Storage

variable {base path file : String} {files other : Files}

theorem fileOf_eq_ok_iff :
    fileOf base path = .ok file ↔ ∃ q, normalForm? path = some q ∧ under base q = file := by
  rw [fileOf]
  cases normalForm? path <;> simp

/-- The file of an object lies below the base by its components. -/
theorem below_of_fileOf (h : fileOf base path = .ok file) : Path.Below base file := by
  obtain ⟨q, hq, rfl⟩ := fileOf_eq_ok_iff.mp h
  have hordinary := Path.ordinary_of_normalForm hq
  exact ⟨_, List.splitOn_ne_nil '/' _, hordinary, Path.components_under hordinary⟩

/-- Files that are the same below a directory. -/
def SameBelow (base : String) (files other : Files) : Prop :=
  ∀ file, Path.Below base file → other file = files file

section

variable {s : Storage} (hs : s.medium = .directory base files) (h : SameBelow base files other)
include hs h

theorem content_withFiles (path : String) :
    content (s.withFiles other).medium path = content s.medium path := by
  simp only [withFiles, hs, content]
  cases hfile : fileOf base path with
  | error e => rfl
  | ok file => simp only [bind, Except.bind, Files.read, h file (below_of_fileOf hfile)]

theorem stream_withFiles (path : String) :
    stream (s.withFiles other).medium path = stream s.medium path := by
  simp only [withFiles, hs, stream]
  cases hfile : fileOf base path with
  | error e => rfl
  | ok file => simp only [bind, Except.bind, h file (below_of_fileOf hfile)]

theorem contains_withFiles (path : String) :
    (s.withFiles other).contains path = s.contains path := by
  simp only [withFiles, hs, contains]
  cases hfile : fileOf base path with
  | error e => rfl
  | ok file => simp only [Files.isFile, h file (below_of_fileOf hfile)]

end

end Storage

namespace Plane

variable {p : Plane} {base : String} {files other : Files}

/-- The same plane over other files. -/
def onFiles (p : Plane) (files : Files) : Plane := { p with storage := p.storage.withFiles files }

/-- Planes that serve the same, whatever is asked for and wherever it is routed. -/
structure ServesAlike (p q : Plane) : Prop where
  begin : ∀ path, q.begin path = p.begin path
  contains : ∀ path, q.contains path = p.contains path
  openStream : ∀ path, (q.openStream path).1 = (p.openStream path).1
  readObject : ∀ load, (q.readObject load).1 = (p.readObject load).1

/-- A plane over a directory looks at no file that is not below it. -/
theorem servesAlike_onFiles (hp : p.storage.medium = .directory base files)
    (h : Storage.SameBelow base files other) : p.ServesAlike (p.onFiles other) where
  begin _ := rfl
  contains path := by
    have hlocate : (p.onFiles other).locate path = p.locate path := rfl
    rw [contains, contains, hlocate]
    cases p.locate path with
    | error e => rfl
    | ok object =>
      have hstorage := Storage.contains_withFiles hp h object
      simp only [onFiles, hstorage]
  openStream path := by
    have hlocate : (p.onFiles other).locate path = p.locate path := rfl
    rw [openStream, openStream, hlocate]
    cases p.locate path with
    | error e => rfl
    | ok object =>
      change ((p.storage.withFiles other).openStream object).1 = (p.storage.openStream object).1
      rw [openStream_fst, openStream_fst, Storage.stream_withFiles hp h]
  readObject load := by
    rw [readObject_fst, readObject_fst]
    exact Storage.content_withFiles hp h load.object

end Plane

namespace Path

/-- The normal form of a path, and which files the path can name. -/
structure Confined (path : String) : Prop where
  /-- There is none just when a piece climbs or no piece leads anywhere. -/
  none_iff : normalForm? path = none ↔ ['.', '.'] ∈ path.toList.splitOn '/' ∨
    ∀ c ∈ path.toList.splitOn '/', c = [] ∨ c = ['.']
  /-- Else it is the pieces that lead somewhere, in order. -/
  form : ∀ q, normalForm? path = some q → q.toList =
    ['/'].intercalate ((path.toList.splitOn '/').filter fun c => c ≠ [] ∧ c ≠ ['.'])
  /-- The components of what follows the slashes before the path give the same. -/
  components : normalForm? path = formOfComponents? path
  /-- It consists of names and does not begin with a slash, and it is its own normal form. -/
  normal : ∀ q, normalForm? path = some q → q.toList.head? ≠ some '/' ∧
    (∀ c ∈ q.toList.splitOn '/', Ordinary c) ∧ normalForm? q = some q
  refused : ∀ base, normalForm? path = none → Storage.fileOf base path = .error (.notFound path)
  /-- The file is the base directory followed by names. -/
  file : ∀ base q, normalForm? path = some q → ∃ file, Storage.fileOf base path = .ok file ∧
    Path.components file = Path.components base ++ (q.toList.splitOn '/').map .name ∧
    Below base file
  /-- A walk to the file finds what is within the base directory. -/
  within : ∀ base file (t : FileTree) n, Storage.fileOf base path = .ok file →
    t.find file = .ok n → ∃ d, t.find (home base) = .ok d ∧ d.Within n
  /-- Whether it is asked for or routed to, a plane looks at no file that is not below the base:
  with other files elsewhere it serves the same. -/
  serves : ∀ (p : Plane) base files other, p.storage.medium = .directory base files →
    Storage.SameBelow base files other →
    (p.onFiles other).begin path = p.begin path ∧
    (p.onFiles other).contains path = p.contains path ∧
    ((p.onFiles other).openStream path).1 = (p.openStream path).1 ∧
    (∀ load, p.begin path = .ok load →
      ((p.onFiles other).readObject load).1 = (p.readObject load).1) ∧
    ∀ epoch, ((p.onFiles other).readObject ⟨path, epoch⟩).1 = (p.readObject ⟨path, epoch⟩).1

theorem normalForm?_eq_none_iff_splitOn {path : String} :
    normalForm? path = none ↔ ['.', '.'] ∈ path.toList.splitOn '/' ∨
      ∀ c ∈ path.toList.splitOn '/', c = [] ∨ c = ['.'] := by
  rw [normalForm?_eq_none_iff, up_mem_steps_iff, or_comm, steps_eq, List.filter_eq_nil_iff]
  refine or_congr_right (forall₂_congr fun c _ => ?_)
  simp only [decide_eq_true_eq]
  rw [Decidable.not_and_iff_not_or_not, Decidable.not_not, Decidable.not_not]

/-- Every path has one normal form or none, and names no file outside the base. -/
theorem confined (path : String) : Confined path where
  none_iff := normalForm?_eq_none_iff_splitOn
  form q hq := by
    obtain ⟨-, -, rfl⟩ := normalForm?_eq_some_iff.mp hq
    rw [String.toList_ofList, joined_eq_intercalate, steps_eq]
  components := normalForm?_eq_formOfComponents? path
  normal q hq := by
    have hordinary := ordinary_of_normalForm hq
    exact ⟨head?_ne_slash hordinary, hordinary, normalForm?_of_normalForm? hq⟩
  refused base hnone := by rw [Storage.fileOf, hnone]
  file base q hq := by
    have hfile : Storage.fileOf base path = .ok (under base q) :=
      Storage.fileOf_eq_ok_iff.mpr ⟨q, hq, rfl⟩
    have hordinary := ordinary_of_normalForm hq
    exact ⟨under base q, hfile, components_under hordinary, Storage.below_of_fileOf hfile⟩
  within base file t n hfile hfind := by
    obtain ⟨q, hq, rfl⟩ := Storage.fileOf_eq_ok_iff.mp hfile
    exact within_of_find (ordinary_of_normalForm hq) hfind
  serves p base files other hp hsame := by
    have halike := Plane.servesAlike_onFiles hp hsame
    exact ⟨halike.begin path, halike.contains path, halike.openStream path,
      fun load _ => halike.readObject load, fun epoch => halike.readObject ⟨path, epoch⟩⟩

end Path

end ArtifactPlane
