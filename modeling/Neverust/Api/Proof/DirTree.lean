import Mathlib.Data.List.Perm.Basic
import Mathlib.Data.String.Basic
import Neverust.Api.Directory

/-!
# The tree of a directory request

`DirNode.contents`: the files of a tree with their paths. The tree is built by insertions, each of
which adds one file, and a root that holds nothing but a subdirectory gives way to it.

* `contents_insert`, `contents_promote`: what the two steps do to the contents.
* `DirNode.Good`: the subdirectories are sorted by their names, which differ, and none is empty.
* `buildTree_contents`: the contents are the entries of the request, less the longest common prefix
  of their directories.
-/

namespace Api

open FolderManifest

/-! ## Contents -/

/-- A file and the path to it from a directory. -/
structure FileAt where
  path : List String
  cid : Cid
  size : UInt64
  mimetype : String
  deriving Repr, DecidableEq

namespace FileAt

def ofEntry (e : DirectoryEntry) : FileAt := ⟨[e.name], e.cid, e.size, e.mimetype⟩

/-- The file as seen from a directory above. -/
def below (dirs : List String) (f : FileAt) : FileAt := { f with path := dirs ++ f.path }

@[simp] theorem below_nil (f : FileAt) : f.below [] = f := rfl

@[simp] theorem below_below (p q : List String) (f : FileAt) :
    (f.below q).below p = f.below (p ++ q) := by
  simp [below]

@[simp] theorem below_size (p : List String) (f : FileAt) : (f.below p).size = f.size := rfl

end FileAt

/-- The entry of a file in its directory. -/
def InputEntry.entry (e : InputEntry) : DirectoryEntry where
  name := e.filename
  cid := e.cid
  size := e.size
  isDirectory := false
  mimetype := e.mimetype

/-- The file of an entry, as seen from the root of the request. -/
def InputEntry.file (e : InputEntry) : FileAt := ⟨e.dirs ++ [e.filename], e.cid, e.size, e.mimetype⟩

mutual

/-- The files of a directory and of its subdirectories. -/
def DirNode.contents : DirNode → List FileAt
  | .mk _ files subdirs => contentsOf subdirs ++ files.map .ofEntry

def contentsOf : List (String × DirNode) → List FileAt
  | [] => []
  | (name, d) :: rest => d.contents.map (.below [name]) ++ contentsOf rest

end

theorem contentsOf_eq_flatMap (subdirs : List (String × DirNode)) :
    contentsOf subdirs = subdirs.flatMap fun p => p.2.contents.map (.below [p.1]) := by
  induction subdirs with
  | nil => rfl
  | cons p rest ih => rw [contentsOf, ih, List.flatMap_cons]

theorem mem_contentsOf {subdirs : List (String × DirNode)} {f : FileAt} :
    f ∈ contentsOf subdirs ↔ ∃ p ∈ subdirs, ∃ g ∈ p.2.contents, g.below [p.1] = f := by
  simp [contentsOf_eq_flatMap]

theorem path_ne_nil {d : DirNode} {f : FileAt} (h : f ∈ d.contents) : f.path ≠ [] := by
  obtain ⟨name, files, subdirs⟩ := d
  rw [DirNode.contents, List.mem_append, mem_contentsOf, List.mem_map] at h
  rcases h with ⟨p, -, g, -, rfl⟩ | ⟨e, -, rfl⟩
  · exact List.cons_ne_nil _ _
  · exact List.cons_ne_nil _ _

/-! ## Insertion -/

section
variable {k : String} {new : DirNode} {f : DirNode → DirNode} {x : FileAt}

theorem contentsOf_upsert (hnew : new.contents = [])
    (hf : ∀ d : DirNode, (f d).contents.Perm (x :: d.contents)) (subdirs : List (String × DirNode)) :
    (contentsOf (upsert k new f subdirs)).Perm (x.below [k] :: contentsOf subdirs) := by
  have hone : ((f new).contents.map (FileAt.below [k])).Perm [x.below [k]] := by
    simpa [hnew] using (hf new).map (FileAt.below [k])
  induction subdirs with
  | nil => simpa [upsert, contentsOf] using hone
  | cons p rest ih =>
    obtain ⟨k', d⟩ := p
    rw [upsert]
    split
    · rename_i heq
      subst heq
      rw [contentsOf, contentsOf]
      exact (((hf d).map (FileAt.below [k])).append_right _)
    · split
      · rw [contentsOf]
        exact hone.append_right _
      · rw [contentsOf, contentsOf]
        exact (ih.append_left _).trans List.perm_middle

end

/-- **An insertion adds one file.** -/
theorem contents_insert (file : DirectoryEntry) : ∀ (dirs : List String) (d : DirNode),
    (d.insert file dirs).contents.Perm ((FileAt.ofEntry file).below dirs :: d.contents)
  | [], .mk name files subdirs => by
    rw [DirNode.insert, DirNode.contents, DirNode.contents, List.map_append, ← List.append_assoc]
    exact List.perm_append_singleton _ _
  | part :: rest, .mk name files subdirs => by
    rw [DirNode.insert, DirNode.contents, DirNode.contents]
    have hsub := @contentsOf_upsert part (.mk part [] []) _ _ rfl
      (contents_insert file rest) subdirs
    rw [FileAt.below_below] at hsub
    exact hsub.append_right _

/-! ## Good trees -/

theorem mem_upsert {α : Type} {k : String} {new : α} {f : α → α} :
    ∀ {l : List (String × α)} {p : String × α}, p ∈ upsert k new f l →
      p ∈ l ∨ p = (k, f new) ∨ ∃ v, (k, v) ∈ l ∧ p = (k, f v)
  | [], p, h => .inr (.inl (List.mem_singleton.1 h))
  | (k', v) :: rest, p, h => by
    rw [upsert] at h
    split at h
    · rename_i heq
      subst heq
      rcases List.mem_cons.1 h with rfl | h
      · exact .inr (.inr ⟨v, List.mem_cons_self, rfl⟩)
      · exact .inl (List.mem_cons_of_mem _ h)
    · split at h
      · rcases List.mem_cons.1 h with rfl | h
        · exact .inr (.inl rfl)
        · exact .inl h
      · rcases List.mem_cons.1 h with rfl | h
        · exact .inl List.mem_cons_self
        · rcases mem_upsert h with h | h | ⟨v', hv, h⟩
          · exact .inl (List.mem_cons_of_mem _ h)
          · exact .inr (.inl h)
          · exact .inr (.inr ⟨v', List.mem_cons_of_mem _ hv, h⟩)

theorem upsert_sorted {α : Type} {k : String} {new : α} {f : α → α} :
    ∀ {l : List (String × α)}, l.Pairwise (fun p q => p.1 < q.1) →
      (upsert k new f l).Pairwise fun p q => p.1 < q.1
  | [], _ => List.pairwise_singleton _ _
  | (k', v) :: rest, h => by
    rw [List.pairwise_cons] at h
    rw [upsert]
    split
    · exact List.pairwise_cons.2 h
    · rename_i hne
      split
      · rename_i hlt
        refine List.pairwise_cons.2 ⟨fun p hp => ?_, List.pairwise_cons.2 h⟩
        rcases List.mem_cons.1 hp with rfl | hp
        · exact hlt
        · exact hlt.trans (h.1 p hp)
      · rename_i hnlt
        refine List.pairwise_cons.2 ⟨fun p hp => ?_, upsert_sorted h.2⟩
        have hk : k' < k := lt_of_le_of_ne (not_lt.1 hnlt) (Ne.symm hne)
        rcases mem_upsert hp with hp | rfl | ⟨v', -, rfl⟩
        · exact h.1 p hp
        · exact hk
        · exact hk

/-- The files are files, the subdirectories are sorted by distinct names and none is empty. -/
inductive DirNode.Good : DirNode → Prop
  | mk {name : String} {files : List DirectoryEntry} {subdirs : List (String × DirNode)}
      (files_eq : ∀ e ∈ files, e.isDirectory = false)
      (sorted : subdirs.Pairwise fun p q => p.1 < q.1)
      (subdir : ∀ p ∈ subdirs, p.2.Good)
      (nonempty : ∀ p ∈ subdirs, p.2.contents ≠ []) : Good (.mk name files subdirs)

theorem good_insert {file : DirectoryEntry} (hfile : file.isDirectory = false) :
    ∀ (dirs : List String) {d : DirNode}, d.Good → (d.insert file dirs).Good
  | [], _, .mk hfiles hsorted hsub hne => by
    rw [DirNode.insert]
    refine .mk (fun e he => ?_) hsorted hsub hne
    rcases List.mem_append.1 he with he | he
    · exact hfiles e he
    · rw [List.mem_singleton.1 he, hfile]
  | part :: rest, _, .mk hfiles hsorted hsub hne => by
    rw [DirNode.insert]
    have hins : ∀ d : DirNode, (d.insert file rest).contents ≠ [] := fun d hnil => by
      have := contents_insert file rest d
      rw [hnil] at this
      exact absurd this.length_eq (by simp)
    refine .mk hfiles (upsert_sorted hsorted) (fun p hp => ?_) fun p hp => ?_
    · rcases mem_upsert hp with hp | rfl | ⟨d, hd, rfl⟩
      · exact hsub p hp
      · exact good_insert hfile rest (.mk nofun .nil nofun nofun)
      · exact good_insert hfile rest (hsub _ hd)
    · rcases mem_upsert hp with hp | rfl | ⟨d, -, rfl⟩
      · exact hne p hp
      · exact hins _
      · exact hins _

/-! ## Promotion -/

/-- The root holds something else than one subdirectory. -/
def DirNode.Settled : DirNode → Prop
  | .mk _ files subdirs => files = [] → subdirs.length ≠ 1

/-- **The promotion of single subdirectories** drops a prefix of all paths. -/
theorem contents_promote (d : DirNode) (hd : d.Good) :
    d.promote.Good ∧ d.promote.Settled ∧
      ∃ p, d.contents = d.promote.contents.map (FileAt.below p) := by
  fun_induction DirNode.promote d with
  | case1 name k d ih =>
    obtain ⟨hsub⟩ : ∃ _ : d.Good, True := by
      cases hd with
      | mk _ _ hsub _ => exact ⟨hsub (k, d) List.mem_cons_self, trivial⟩
    obtain ⟨hgood, hsettled, p, hp⟩ := ih hsub
    refine ⟨hgood, hsettled, k :: p, ?_⟩
    rw [DirNode.contents, contentsOf, contentsOf, hp]
    simp
  | case2 d hnot =>
    refine ⟨hd, ?_, [], ?_⟩
    · obtain ⟨name, files, subdirs⟩ := d
      rintro rfl hone
      obtain ⟨⟨k, d⟩, rfl⟩ := List.length_eq_one_iff.1 hone
      exact hnot name k d rfl
    · exact (List.map_id _).symm

/-- The files of a settled root have no directory in common. -/
theorem Settled.common_nil {d : DirNode} (hd : d.Good) (hs : d.Settled) (hne : d.contents ≠ [])
    {q : List String} (hq : ∀ f ∈ d.contents, q <+: f.path.dropLast) : q = [] := by
  obtain ⟨hfiles, hsorted, hsub, hnonempty⟩ := hd
  rename_i name files subdirs
  rw [DirNode.contents] at hq hne
  cases files with
  | cons e files =>
    exact List.prefix_nil.1 (hq (.ofEntry e) (List.mem_append_right _ List.mem_cons_self))
  | nil =>
    -- a file below the subdirectory `p` lies in the directory `p.1`
    have hfile : ∀ p ∈ subdirs, ∃ dirs, q <+: p.1 :: dirs := by
      intro p hp
      obtain ⟨g, hg⟩ := List.exists_mem_of_ne_nil _ (hnonempty p hp)
      refine ⟨g.path.dropLast, ?_⟩
      have := hq (g.below [p.1]) (List.mem_append_left _ (mem_contentsOf.2 ⟨p, hp, g, hg, rfl⟩))
      rwa [FileAt.below, List.singleton_append, List.dropLast_cons_of_ne_nil (path_ne_nil hg)] at this
    match subdirs, hs rfl with
    | [], _ => exact absurd rfl hne
    | [p], h => exact absurd rfl h
    | p₁ :: p₂ :: rest, _ =>
      obtain ⟨dirs₁, h₁⟩ := hfile p₁ List.mem_cons_self
      obtain ⟨dirs₂, h₂⟩ := hfile p₂ (List.mem_cons_of_mem _ List.mem_cons_self)
      have hlt : p₁.1 < p₂.1 := (List.pairwise_cons.1 hsorted).1 p₂ List.mem_cons_self
      cases q with
      | nil => rfl
      | cons a q =>
        rw [List.cons_prefix_cons] at h₁ h₂
        exact absurd (h₁.1.symm.trans h₂.1) hlt.ne

/-! ## The tree of a request -/

/-- The longest list of directories in which all the entries lie. -/
structure IsCommonDirs (inputs : List InputEntry) (p : List String) : Prop where
  common : ∀ e ∈ inputs, p <+: e.dirs
  longest : inputs ≠ [] → ∀ q : List String, (∀ e ∈ inputs, q <+: e.dirs) → q <+: p

/-- A file as seen from a directory on its path. -/
def FileAt.seenFrom (p : List String) (f : FileAt) : FileAt := { f with path := f.path.drop p.length }

theorem FileAt.seenFrom_below (p : List String) (f : FileAt) : (f.below p).seenFrom p = f := by
  simp [FileAt.seenFrom, FileAt.below]

theorem insertAll_contents : ∀ (inputs : List InputEntry) (d : DirNode), d.Good →
    (inputs.foldl (fun root e => root.insert e.entry e.dirs) d).Good ∧
      (inputs.foldl (fun root e => root.insert e.entry e.dirs) d).contents.Perm
        (inputs.map InputEntry.file ++ d.contents)
  | [], d, hd => ⟨hd, .refl _⟩
  | e :: inputs, d, hd => by
    obtain ⟨hgood, hperm⟩ := insertAll_contents inputs _
      (good_insert (show e.entry.isDirectory = false from rfl) e.dirs hd)
    refine ⟨hgood, hperm.trans ?_⟩
    exact ((contents_insert _ _ _).append_left _).trans List.perm_middle

/-- **The tree of a request** has its entries as files, less their longest common prefix. -/
theorem buildTree_contents (name : Option String) (inputs : List InputEntry) :
    (buildTree name inputs).Good ∧ ∃ p, IsCommonDirs inputs p ∧
      (buildTree name inputs).contents.Perm (inputs.map fun e => e.file.seenFrom p) := by
  obtain ⟨hgood, hperm⟩ := insertAll_contents inputs (.mk (name.getD "") [] [])
    (.mk nofun .nil nofun nofun)
  obtain ⟨hgood', hsettled, p, hp⟩ := contents_promote _ hgood
  rw [show (DirNode.mk (name.getD "") [] []).contents = [] from rfl, List.append_nil, hp] at hperm
  change ((buildTree name inputs).contents.map (FileAt.below p)).Perm _ at hperm
  change DirNode.Good (buildTree name inputs) at hgood'
  change DirNode.Settled (buildTree name inputs) at hsettled
  -- the directories of an entry are the prefix and the directories of a file of the tree
  have hdirs : ∀ e ∈ inputs, ∃ f ∈ (buildTree name inputs).contents,
      p ++ f.path.dropLast = e.dirs := by
    intro e he
    obtain ⟨f, hf, heq⟩ := List.mem_map.1 (hperm.mem_iff.2 (List.mem_map_of_mem he))
    have hpath := congrArg List.dropLast (congrArg FileAt.path heq)
    rw [FileAt.below, InputEntry.file, List.dropLast_append_of_ne_nil (path_ne_nil hf),
      List.dropLast_concat] at hpath
    exact ⟨f, hf, hpath⟩
  refine ⟨hgood', p, ⟨fun e he => ?_, fun hne q hq => ?_⟩, ?_⟩
  · obtain ⟨f, -, hf⟩ := hdirs e he
    exact ⟨_, hf⟩
  · obtain ⟨e, he⟩ := List.exists_mem_of_ne_nil _ hne
    obtain ⟨f, hf, hdir⟩ := hdirs e he
    rcases List.prefix_or_prefix_of_prefix (hq e he) ⟨_, hdir⟩ with h | ⟨r, rfl⟩
    · exact h
    · have hr : r = [] := by
        refine Settled.common_nil hgood' hsettled (List.ne_nil_of_mem hf) fun f hf => ?_
        obtain ⟨e', he', heq⟩ := List.mem_map.1 (hperm.mem_iff.1 (List.mem_map_of_mem hf))
        have hpath := congrArg List.dropLast (congrArg FileAt.path heq)
        rw [FileAt.below, InputEntry.file, List.dropLast_append_of_ne_nil (path_ne_nil hf),
          List.dropLast_concat] at hpath
        have hpre := hq e' he'
        rwa [hpath, List.prefix_append_right_inj] at hpre
      simp [hr]
  · have := hperm.map (FileAt.seenFrom p)
    rwa [List.map_map, List.map_map, show FileAt.seenFrom p ∘ FileAt.below p = id from
      funext (FileAt.seenFrom_below p), List.map_id] at this

end Api
