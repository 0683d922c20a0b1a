import Mathlib.Algebra.Order.BigOperators.Group.List
import Neverust.Api.Proof.DirTree
import Neverust.Api.Proof.Roundtrip
import Neverust.Storage.Redb

/-!
# A directory request keeps the file tree

* `DirNode.block`: the block of a directory, which has the CIDs of its subdirectories in its data.
* `walk`: the files that a reader finds who follows the stored manifests from a CID.
* `walk_good`: from the block of a good tree on it finds the contents of the tree.
* `buildInner_ends`: a node stores the blocks of its tree.
* `directory_walk`: both together, for a request.
-/

namespace Api

open Rust Storage Request FolderManifest CidBlake3

/-! ## The blocks of a tree -/

/-- The sizes of some files together. -/
def total (files : List FileAt) : Nat := (files.map (·.size.toNat)).sum

section
variable (cr : Crates) (px : Prost)

def directoryManifest (name : String) (entries : List DirectoryEntry) : DirectoryManifest where
  entries := entries.mergeSort entryLe
  totalSize := UInt64.ofNat (entries.map (·.size.toNat)).sum
  name := name

def directoryBlock (d : DirectoryManifest) : Block where
  cid := Cid.newV1 directoryCodec ⟨sha2256Code, cr.sha256 (d.encoded cr px)⟩
  data := d.encoded cr px

mutual

/-- The block of a directory, whose subdirectories have theirs. -/
def DirNode.block : DirNode → Block
  | .mk name files subdirs =>
    directoryBlock cr px (directoryManifest name (subdirEntries subdirs ++ files))

def subdirEntries : List (String × DirNode) → List DirectoryEntry
  | [] => []
  | (name, d) :: rest =>
    { name, cid := d.block.cid, size := UInt64.ofNat (total d.contents), isDirectory := true,
      mimetype := "" } :: subdirEntries rest

end

mutual

/-- The blocks of a directory and of its subdirectories. -/
def DirNode.blocks : DirNode → List Block
  | .mk name files subdirs => subdirBlocks subdirs ++ [(DirNode.mk name files subdirs).block cr px]

def subdirBlocks : List (String × DirNode) → List Block
  | [] => []
  | (_, d) :: rest => d.blocks ++ subdirBlocks rest

end

/-! ## Following the manifests -/

/-- A directory on the way, with the files below it. -/
structure Visit where
  dir : DirectoryManifest
  below : List FileAt

/-- An entry: a file, or a directory to walk. -/
def walkEntry (walk : Cid → Option (List FileAt × List Visit)) (e : DirectoryEntry) :
    Option (List FileAt × List Visit) :=
  if e.isDirectory then
    (walk e.cid).map fun (files, visits) => (files.map (.below [e.name]), visits)
  else some ([.ofEntry e], [])

/-- The files below a directory, read from its manifest and those of its subdirectories, and the
directories on the way. -/
def walk (get : Cid → Option Block) : Nat → Cid → Option (List FileAt × List Visit)
  | 0, _ => none
  | fuel + 1, cid => do
    let block ← get cid
    let dir ← (DirectoryManifest.fromBlock cr px block).toOption
    let parts ← dir.entries.mapM (walkEntry (walk get fuel))
    let files := parts.flatMap (·.1)
    return (files, ⟨dir, files⟩ :: parts.flatMap (·.2))

end

/-- The total size is that of the files below; the directories come before the files, both sorted by
name, and no two directories have the same name. -/
structure Visit.Sound (v : Visit) : Prop where
  totalSize : v.dir.totalSize.toNat = total v.below
  sorted : ∃ dirs files, v.dir.entries = dirs ++ files ∧ (∀ e ∈ dirs, e.isDirectory = true) ∧
    (∀ e ∈ files, e.isDirectory = false) ∧ dirs.Pairwise (fun a b => a.name < b.name) ∧
    files.Pairwise fun a b => a.name ≤ b.name

section
variable {cr : Crates} {px : Prost}

/-- The entry of a subdirectory in its parent. -/
def dirEntry (cr : Crates) (px : Prost) (p : String × DirNode) : DirectoryEntry where
  name := p.1
  cid := (p.2.block cr px).cid
  size := UInt64.ofNat (total p.2.contents)
  isDirectory := true
  mimetype := ""

theorem subdirEntries_eq_map (subdirs : List (String × DirNode)) :
    subdirEntries cr px subdirs = subdirs.map (dirEntry cr px) := by
  induction subdirs with
  | nil => rfl
  | cons p rest ih =>
    rw [subdirEntries, ih, List.map_cons]
    rfl

theorem mem_subdirBlocks {subdirs : List (String × DirNode)} {b : Block} :
    b ∈ subdirBlocks cr px subdirs ↔ ∃ p ∈ subdirs, b ∈ p.2.blocks cr px := by
  induction subdirs with
  | nil => simp [subdirBlocks]
  | cons p rest ih => simp [subdirBlocks, ih]

theorem readEntry_toProto (e : DirectoryEntry) :
    DirectoryManifest.readEntry cr (e.toProto cr) = .ok e := by
  obtain ⟨name, cid, size, isDirectory, mimetype⟩ := e
  simp only [DirectoryManifest.readEntry, DirectoryEntry.toProto, cr.cidOfBytes_toBytes]
  cases isDirectory <;> rfl

theorem mapM_readEntry (entries : List DirectoryEntry) :
    (entries.map (DirectoryEntry.toProto cr)).mapM (DirectoryManifest.readEntry cr) =
      .ok entries := by
  induction entries with
  | nil => rfl
  | cons e rest ih => rw [List.map_cons, List.mapM_cons, readEntry_toProto, ih]; rfl

theorem fromBlock_directoryBlock (d : DirectoryManifest) :
    DirectoryManifest.fromBlock cr px (directoryBlock cr px d) = .ok d := by
  have hdec : DirectoryManifest.decode cr px (d.encoded cr px) = .ok d := by
    rw [DirectoryManifest.decode, DirectoryManifest.encoded, px.directory.decode_encode]
    show (_ >>= fun _ => _) = _
    rw [mapM_readEntry]
    rfl
  have hcodec : (directoryBlock cr px d).cid.codec = directoryCodec := rfl
  rw [DirectoryManifest.fromBlock, if_neg (not_not.2 hcodec)]
  exact hdec

/-! ## Sorted entries -/

theorem entryLe_trans (a b c : DirectoryEntry) (h : entryLe a b = true) (h' : entryLe b c = true) :
    entryLe a c = true := by
  unfold entryLe at *
  cases ha : a.isDirectory <;> cases hb : b.isDirectory <;> cases hc : c.isDirectory <;>
    simp only [ha, hb, hc, decide_eq_true_eq, reduceCtorEq] at h h' ⊢
  · exact h.trans h'
  · exact h.trans h'

theorem entryLe_total (a b : DirectoryEntry) : (entryLe a b || entryLe b a) = true := by
  unfold entryLe
  cases a.isDirectory <;> cases b.isDirectory <;> simp [le_total]

/-- Directories that come first and then files are the two groups of a list one after the other. -/
theorem filter_append_filter : ∀ {l : List DirectoryEntry},
    l.Pairwise (fun a b => entryLe a b = true) →
      l = l.filter (·.isDirectory) ++ l.filter fun e => !e.isDirectory
  | [], _ => rfl
  | e :: l, h => by
    rw [List.pairwise_cons] at h
    cases he : e.isDirectory with
    | true =>
      rw [List.filter_cons_of_pos he, List.filter_cons_of_neg (by simp [he]), List.cons_append,
        ← filter_append_filter h.2]
    | false =>
      have hnone : l.filter (·.isDirectory) = [] := by
        refine List.filter_eq_nil_iff.2 fun a ha hdir => ?_
        have := h.1 a ha
        rw [entryLe, he, hdir] at this
        cases this
      have hrest := filter_append_filter h.2
      rw [hnone, List.nil_append] at hrest
      rw [List.filter_cons_of_neg (by simp [he]), List.filter_cons_of_pos (by simp [he]), hnone,
        List.nil_append, ← hrest]

theorem name_le_of_entryLe {a b : DirectoryEntry} (hab : a.isDirectory = b.isDirectory)
    (h : entryLe a b = true) : a.name ≤ b.name := by
  unfold entryLe at h
  rw [hab] at h
  cases hb : b.isDirectory <;> rw [hb] at h <;> exact of_decide_eq_true h

/-- **The order of the entries** of a manifest. -/
theorem sorted_entries {name : String} {dirs files : List DirectoryEntry}
    (hdirs : ∀ e ∈ dirs, e.isDirectory = true) (hfiles : ∀ e ∈ files, e.isDirectory = false)
    (hnames : dirs.Pairwise fun a b => a.name < b.name) :
    ∃ ds fs, (directoryManifest name (dirs ++ files)).entries = ds ++ fs ∧
      (∀ e ∈ ds, e.isDirectory = true) ∧ (∀ e ∈ fs, e.isDirectory = false) ∧
      ds.Pairwise (fun a b => a.name < b.name) ∧ fs.Pairwise fun a b => a.name ≤ b.name := by
  have hsort := List.pairwise_mergeSort entryLe_trans entryLe_total (dirs ++ files)
  refine ⟨_, _, filter_append_filter hsort, fun e he => (List.mem_filter.1 he).2, fun e he => ?_,
    ?_, ?_⟩
  · simpa using (List.mem_filter.1 he).2
  · have hperm : (((dirs ++ files).mergeSort entryLe).filter (·.isDirectory)).Perm dirs := by
      refine ((List.mergeSort_perm _ _).filter _).trans ?_
      rw [List.filter_append, List.filter_eq_self.2 hdirs,
        List.filter_eq_nil_iff.2 fun e he => by simp [hfiles e he], List.append_nil]
    have hne : dirs.Pairwise fun a b => a.name ≠ b.name := hnames.imp fun h => h.ne
    have hne' := (hperm.pairwise_iff fun h => h.symm).2 hne
    refine (hne'.and (hsort.filter _)).imp_of_mem fun ha hb h => ?_
    have hdir := (List.mem_filter.1 ha).2.trans (List.mem_filter.1 hb).2.symm
    exact lt_of_le_of_ne (name_le_of_entryLe hdir h.2) h.1
  · refine (hsort.filter _).imp_of_mem fun ha hb h => name_le_of_entryLe ?_ h
    have ha := (List.mem_filter.1 ha).2
    have hb := (List.mem_filter.1 hb).2
    simp only [Bool.not_eq_eq_eq_not, Bool.not_true] at ha hb
    rw [ha, hb]

/-! ## The walk over a tree -/

theorem total_append (l l' : List FileAt) : total (l ++ l') = total l + total l' := by
  simp [total]

theorem total_below (p : List String) (l : List FileAt) : total (l.map (.below p)) = total l := by
  simp [total, Function.comp_def]

theorem total_perm {l l' : List FileAt} (h : l.Perm l') : total l = total l' :=
  (h.map _).sum_nat

theorem total_le_contentsOf {subdirs : List (String × DirNode)} {p : String × DirNode}
    (hp : p ∈ subdirs) : total p.2.contents ≤ total (contentsOf subdirs) := by
  obtain ⟨l, r, rfl⟩ := List.append_of_mem hp
  rw [contentsOf_eq_flatMap, List.flatMap_append, List.flatMap_cons, total_append, total_append,
    total_below]
  omega

/-- The sizes of the entries of a directory are those of its files. -/
theorem sum_entries {subdirs : List (String × DirNode)} (files : List DirectoryEntry)
    (h : total (contentsOf subdirs) < 2 ^ 64) :
    ((subdirEntries cr px subdirs ++ files).map (·.size.toNat)).sum =
      total (contentsOf subdirs ++ files.map .ofEntry) := by
  have hsub : ((subdirEntries cr px subdirs).map (·.size.toNat)).sum =
      total (contentsOf subdirs) := by
    induction subdirs with
    | nil => rfl
    | cons p rest ih =>
      rw [contentsOf, total_append, total_below] at h ⊢
      rw [subdirEntries, List.map_cons, List.sum_cons, ih (by omega),
        UInt64.toNat_ofNat_of_lt' (show total p.2.contents < 2 ^ 64 by omega)]
  rw [List.map_append, List.sum_append, hsub, total_append]
  simp [total, Function.comp_def, FileAt.ofEntry]

theorem mapM_eq_some {α β : Type} {f : α → Option β} {g : α → β} :
    ∀ {l : List α}, (∀ a ∈ l, f a = some (g a)) → l.mapM f = some (l.map g)
  | [], _ => rfl
  | a :: l, h => by
    rw [List.mapM_cons, h a List.mem_cons_self,
      mapM_eq_some fun b hb => h b (List.mem_cons_of_mem a hb)]
    rfl

/-- One directory, if the entries of its manifest have been walked. -/
theorem walk_succ {get : Cid → Option Block} {fuel : Nat} {m : DirectoryManifest}
    (hget : get (directoryBlock cr px m).cid = some (directoryBlock cr px m))
    {g : DirectoryEntry → List FileAt × List Visit}
    (hg : ∀ e ∈ m.entries, walkEntry (walk cr px get fuel) e = some (g e)) :
    walk cr px get (fuel + 1) (directoryBlock cr px m).cid =
      some (m.entries.flatMap fun e => (g e).1,
        ⟨m, m.entries.flatMap fun e => (g e).1⟩ :: m.entries.flatMap fun e => (g e).2) := by
  rw [walk, hget, Option.bind_eq_bind, Option.bind_some, fromBlock_directoryBlock]
  simp only [Except.toOption, Option.bind_eq_bind, Option.bind_some, mapM_eq_some hg,
    List.flatMap_map]
  rfl

/-- What a walk of the block finds, whatever the fuel from some amount on. -/
def Finds (cr : Crates) (px : Prost) (get : Cid → Option Block) (cid : Cid)
    (files : List FileAt) (visits : List Visit) : Prop :=
  ∃ n, ∀ fuel ≥ n, walk cr px get fuel cid = some (files, visits)

/-- The entries of a directory whose subdirectories have been walked. -/
theorem walk_entries {get : Cid → Option Block} {subdirs : List (String × DirNode)}
    {files : List DirectoryEntry} (hfiles : ∀ e ∈ files, e.isDirectory = false)
    (hsub : ∀ p ∈ subdirs, ∃ sub visits, Finds cr px get (p.2.block cr px).cid sub visits ∧
      sub.Perm p.2.contents ∧ ∀ v ∈ visits, v.Sound) :
    ∃ n, ∃ g : DirectoryEntry → List FileAt × List Visit,
      (∀ fuel ≥ n, ∀ e ∈ subdirEntries cr px subdirs ++ files,
        walkEntry (walk cr px get fuel) e = some (g e)) ∧
      (∀ p ∈ subdirs, (g (dirEntry cr px p)).1.Perm (p.2.contents.map (.below [p.1])) ∧
        ∀ v ∈ (g (dirEntry cr px p)).2, v.Sound) ∧
      ∀ e ∈ files, g e = ([.ofEntry e], []) := by
  choose! sub visits hfinds hperm hsound using hsub
  choose! n hwalk using hfinds
  have hdir : ∀ p ∈ subdirs, ∀ fuel ≥ (subdirs.map n).sum,
      walkEntry (walk cr px get fuel) (dirEntry cr px p) =
        some ((sub p).map (.below [p.1]), visits p) := by
    intro p hp fuel hfuel
    have hle : n p ≤ (subdirs.map n).sum := List.le_sum_of_mem (List.mem_map_of_mem hp)
    show (walk cr px get fuel (p.2.block cr px).cid).map _ = _
    rw [hwalk p hp fuel (by omega)]
    rfl
  have hfile : ∀ e ∈ files, ∀ fuel,
      walkEntry (walk cr px get fuel) e = some ([.ofEntry e], []) := fun e he fuel => by
    simp [walkEntry, hfiles e he]
  -- from that fuel on the walk of an entry does not depend on it
  let g := fun e => (walkEntry (walk cr px get (subdirs.map n).sum) e).getD ([], [])
  have hgdir : ∀ p ∈ subdirs, g (dirEntry cr px p) = ((sub p).map (.below [p.1]), visits p) :=
    fun p hp => by simp only [g, hdir p hp _ (Nat.le_refl _), Option.getD_some]
  have hgfile : ∀ e ∈ files, g e = ([.ofEntry e], []) :=
    fun e he => by simp only [g, hfile e he, Option.getD_some]
  refine ⟨(subdirs.map n).sum, g, fun fuel hfuel e he => ?_, fun p hp => ?_, hgfile⟩
  · rw [List.mem_append, subdirEntries_eq_map, List.mem_map] at he
    rcases he with ⟨p, hp, rfl⟩ | he
    · rw [hdir p hp fuel hfuel, hgdir p hp]
    · rw [hfile e he, hgfile e he]
  · rw [hgdir p hp]
    exact ⟨(hperm p hp).map _, hsound p hp⟩

/-- **The walk finds the tree**: its files, each with the path to it. -/
theorem walk_good {get : Cid → Option Block} {d : DirNode} (hd : d.Good)
    (hget : ∀ b ∈ d.blocks cr px, get b.cid = some b) (htotal : total d.contents < 2 ^ 64) :
    ∃ files visits, Finds cr px get (d.block cr px).cid files visits ∧
      files.Perm d.contents ∧ ∀ v ∈ visits, v.Sound := by
  induction hd with
  | @mk name files subdirs hfiles hsorted _ _ ih =>
    have hsum := htotal
    rw [DirNode.contents, total_append] at hsum
    obtain ⟨n, g, hwalk, hdirs, hleaves⟩ :=
        @walk_entries cr px get subdirs files hfiles fun p hp => by
      refine ih p hp (fun b hb => hget b ?_) ?_
      · rw [DirNode.blocks]
        exact List.mem_append_left _ (mem_subdirBlocks.2 ⟨p, hp, hb⟩)
      · have := total_le_contentsOf hp
        omega
    have hself : get ((DirNode.mk name files subdirs).block cr px).cid =
        some ((DirNode.mk name files subdirs).block cr px) := by
      refine hget _ ?_
      rw [DirNode.blocks]
      exact List.mem_append_right _ List.mem_cons_self
    let m := directoryManifest name (subdirEntries cr px subdirs ++ files)
    have hentries : m.entries.Perm (subdirEntries cr px subdirs ++ files) :=
      List.mergeSort_perm _ entryLe
    have hcontents : (m.entries.flatMap fun e => (g e).1).Perm
        (DirNode.mk name files subdirs).contents := by
      refine (hentries.flatMap_right _).trans ?_
      rw [List.flatMap_append, subdirEntries_eq_map, List.flatMap_map, DirNode.contents,
        contentsOf_eq_flatMap, List.map_eq_flatMap]
      refine (List.Perm.flatMap_left _ fun p hp => (hdirs p hp).1).append
        (List.Perm.flatMap_left _ fun e he => ?_)
      rw [hleaves e he]
    refine ⟨_, ⟨m, m.entries.flatMap fun e => (g e).1⟩ :: m.entries.flatMap fun e => (g e).2,
      ⟨n + 1, fun fuel hfuel => ?_⟩, hcontents, fun v hv => ?_⟩
    · obtain ⟨fuel, rfl⟩ : ∃ k, fuel = k + 1 := ⟨fuel - 1, by omega⟩
      exact walk_succ hself fun e he => hwalk fuel (by omega) e (hentries.mem_iff.1 he)
    · rcases List.mem_cons.1 hv with rfl | hv
      · refine ⟨?_, sorted_entries (fun e he => ?_) hfiles ?_⟩
        · have hsize := @sum_entries cr px subdirs files (by omega)
          show (UInt64.ofNat _).toNat = total (m.entries.flatMap fun e => (g e).1)
          rw [hsize, total_perm hcontents, DirNode.contents]
          exact UInt64.toNat_ofNat_of_lt' htotal
        · rw [subdirEntries_eq_map] at he
          obtain ⟨p, -, rfl⟩ := List.mem_map.1 he
          rfl
        · rw [subdirEntries_eq_map]
          exact List.pairwise_map.2 hsorted
      · obtain ⟨e, he, hv⟩ := List.mem_flatMap.1 hv
        rw [hentries.mem_iff, List.mem_append, subdirEntries_eq_map, List.mem_map] at he
        rcases he with ⟨p, hp, rfl⟩ | he
        · exact (hdirs p hp).2 v hv
        · rw [hleaves e he] at hv
          cases hv

/-! ## What a node stores -/

/-- A round of the sum of the sizes. -/
def addSize {ε : Type} (sum : UInt64) (e : DirectoryEntry) : Result ε UInt64 :=
  match checkedAdd64 sum e.size.toNat with
  | some sum => .ok sum
  | none => .error (.panic .overflow)

theorem directoryManifest_new {ε : Type} (name : String) {entries : List DirectoryEntry}
    (h : (entries.map (·.size.toNat)).sum < 2 ^ 64) :
    (DirectoryManifest.new (entries.mergeSort entryLe) name : Result ε _) =
      .ok (directoryManifest name entries) := by
  have hfold : ∀ (l : List DirectoryEntry) (a : UInt64),
      a.toNat + (l.map (·.size.toNat)).sum < 2 ^ 64 →
      (l.foldlM addSize a : Result ε UInt64) =
        .ok (UInt64.ofNat (a.toNat + (l.map (·.size.toNat)).sum)) := by
    intro l
    induction l with
    | nil => intro a _; simp
    | cons e l ih =>
      intro a ha
      rw [List.map_cons, List.sum_cons] at ha ⊢
      rw [List.foldlM_cons, addSize]
      cases hadd : checkedAdd64 a e.size.toNat with
      | none =>
        have := checkedAdd64_eq_none hadd
        omega
      | some a' =>
        have ha' := checkedAdd64_eq_some hadd
        show List.foldlM _ a' l = _
        rw [ih a' (by omega), ha', Nat.add_assoc]
  have hperm := ((List.mergeSort_perm entries entryLe).map (·.size.toNat)).sum_nat
  have hsum := hfold (entries.mergeSort entryLe) 0 (by simpa [hperm] using h)
  refine (congrArg (fun r => r >>= fun totalSize => pure (DirectoryManifest.mk
    (entries.mergeSort entryLe) totalSize name)) hsum).trans ?_
  rw [hperm, show (0 : UInt64).toNat = 0 from rfl, Nat.zero_add]
  rfl

section
variable {B : Backend} {K : Block → Prop} {Valid : B.State → Prop}
  (ctx : Context cr B K Valid True) (sched : Schedule)
include ctx

theorem storeDirectory_ends (name : String) {entries : List DirectoryEntry}
    (h : (entries.map (·.size.toNat)).sum < 2 ^ 64)
    (hK : K (directoryBlock cr px (directoryManifest name entries))) {w : Sys B}
    (hw : SysOk cr B Valid True [] w) :
    Ends (Sys.answer sched) (storeDirectory cr px name entries) w
      (fun r w' => r = ((directoryBlock cr px (directoryManifest name entries)).cid,
          UInt64.ofNat (entries.map (·.size.toNat)).sum) ∧
        SysOk cr B Valid True [] w' ∧ Later B Valid True w w' ∧
        B.Holds w'.store (directoryBlock cr px (directoryManifest name entries)))
      (fun _ _ => False) := by
  unfold storeDirectory
  apply Ends.lift_bind (directoryManifest_new name h)
  apply Ends.lift_bind (congrArg (wrap _) (DirectoryManifest.toBlock_eq ctx.standard px _))
  refine Ends.bind (Ends.imp (putMany_ends ctx (fun _ b hb => absurd hb List.not_mem_nil) sched
    (fun _ b hb => ?_) hw) (fun _ _ h => h) fun _ _ h => h trivial) ?_
  · rw [List.mem_singleton.1 hb]
    exact hK
  · rintro _ w' ⟨hw', hl, hheld⟩
    exact Ends.pure ⟨rfl, hw', hl, hheld trivial _ List.mem_cons_self⟩

/-- The node stores the blocks of its tree, and returns the CID of its own. -/
def Builds (cr : Crates) (px : Prost) (B : Backend) (Valid : B.State → Prop) (sched : Schedule)
    (d : DirNode) : Prop :=
  ∀ w : Sys B, SysOk cr B Valid True [] w → Ends (Sys.answer sched) (buildInner cr px d) w
    (fun r w' => r = ((d.block cr px).cid, UInt64.ofNat (total d.contents)) ∧
      SysOk cr B Valid True [] w' ∧ Later B Valid True w w' ∧
      ∀ b ∈ d.blocks cr px, B.Holds w'.store b)
    (fun _ _ => False)

omit ctx in
theorem buildSubdirs_ends : ∀ {subdirs : List (String × DirNode)},
    (∀ p ∈ subdirs, Builds cr px B Valid sched p.2) →
    ∀ {w : Sys B}, SysOk cr B Valid True [] w →
      Ends (Sys.answer sched) (buildSubdirs cr px subdirs) w
        (fun es w' => es = subdirEntries cr px subdirs ∧ SysOk cr B Valid True [] w' ∧
          Later B Valid True w w' ∧ ∀ b ∈ subdirBlocks cr px subdirs, B.Holds w'.store b)
        (fun _ _ => False)
  | [], _, w, hw => Ends.pure ⟨rfl, hw, .refl hw.valid, nofun⟩
  | (name, d) :: rest, h, w, hw => by
    rw [buildSubdirs]
    refine Ends.bind (h (name, d) List.mem_cons_self w hw) ?_
    rintro _ w₁ ⟨rfl, hw₁, hl₁, hheld₁⟩
    refine Ends.bind (buildSubdirs_ends (fun p hp => h p (List.mem_cons_of_mem _ hp)) hw₁) ?_
    rintro _ w₂ ⟨rfl, hw₂, hl₂, hheld₂⟩
    refine Ends.pure ⟨rfl, hw₂, hl₁.trans hl₂, fun b hb => ?_⟩
    rw [subdirBlocks, List.mem_append] at hb
    rcases hb with hb | hb
    · exact hl₂.keeps.held trivial b (hheld₁ b hb)
    · exact hheld₂ b hb

/-- **A node stores its tree.** -/
theorem buildInner_ends {d : DirNode} (hd : d.Good) (htotal : total d.contents < 2 ^ 64)
    (hK : ∀ b ∈ d.blocks cr px, K b) : Builds cr px B Valid sched d := by
  induction hd with
  | @mk name files subdirs _ _ _ _ ih =>
    have hsum := htotal
    rw [DirNode.contents, total_append] at hsum
    rw [DirNode.blocks] at hK
    intro w hw
    rw [buildInner]
    refine Ends.bind (buildSubdirs_ends sched (fun p hp => ?_) hw) ?_
    · refine ih p hp ?_ fun b hb => hK b (List.mem_append_left _ (mem_subdirBlocks.2 ⟨p, hp, hb⟩))
      have := total_le_contentsOf hp
      omega
    · rintro _ w₁ ⟨rfl, hw₁, hl₁, hheld₁⟩
      have hentries := @sum_entries cr px subdirs files (by omega)
      refine Ends.mono (storeDirectory_ends ctx sched name (by rw [hentries]; exact htotal)
        (hK _ (List.mem_append_right _ List.mem_cons_self)) hw₁) ?_
      rintro _ w₂ ⟨rfl, hw₂, hl₂, hheld₂⟩
      refine ⟨by rw [hentries]; rfl, hw₂, hl₁.trans hl₂, fun b hb => ?_⟩
      rw [DirNode.blocks, List.mem_append] at hb
      rcases hb with hb | hb
      · exact hl₂.keeps.held trivial b (hheld₁ b hb)
      · rw [List.mem_singleton.1 hb]
        exact hheld₂

/-! ## The entries of a request -/

omit ctx in
/-- The size of an entry whose content the store has answered with. -/
def sizeFound (cr : Crates) (px : Prost) (cid : Cid) : Except StorageError Block → UInt64
  | .error _ => 0
  | .ok block =>
    if cid.codec = Manifest.manifestCodec then
      match Manifest.fromBlock cr px block with
      | .ok manifest => manifest.datasetSize
      | .error _ => UInt64.ofNat block.data.length
    else UInt64.ofNat block.data.length

omit ctx in
/-- The size of an entry, stated or told by the store, and the store after that. -/
def sizeIn (cr : Crates) (px : Prost) (B : Backend) (s : B.State) (cid : Cid) :
    Option UInt64 → UInt64 × B.State
  | some size => (size, s)
  | none => (sizeFound cr px cid (B.answer (.get cid) s).1, (B.answer (.get cid) s).2)

omit ctx in
/-- What an entry asks for that is read when the store is `s`. -/
structure Requested (cr : Crates) (px : Prost) (B : Backend) (s : B.State)
    (entry : CreateDirectoryEntryRequest) (e : InputEntry) : Prop where
  path : e.dirs ++ [e.filename] = pathParts entry.path
  cid : cr.cidOfString entry.cid = some e.cid
  size : e.size = (sizeIn cr px B s e.cid entry.size).1
  mimetype : e.mimetype = entry.mimetype.getD ""

omit ctx in
/-- The entries, read one after the other from the store `s` on; those without a path are left
out. -/
inductive EntriesRead (cr : Crates) (px : Prost) (B : Backend) :
    B.State → List CreateDirectoryEntryRequest → List InputEntry → B.State → Prop
  | nil (s : B.State) : EntriesRead cr px B s [] [] s
  | skip {s s' : B.State} {entry : CreateDirectoryEntryRequest}
      {entries : List CreateDirectoryEntryRequest} {inputs : List InputEntry} :
      pathParts entry.path = [] → EntriesRead cr px B s entries inputs s' →
      EntriesRead cr px B s (entry :: entries) inputs s'
  | read {s s' : B.State} {entry : CreateDirectoryEntryRequest} {e : InputEntry}
      {entries : List CreateDirectoryEntryRequest} {inputs : List InputEntry} :
      Requested cr px B s entry e →
      EntriesRead cr px B (sizeIn cr px B s e.cid entry.size).2 entries inputs s' →
      EntriesRead cr px B s (entry :: entries) (e :: inputs) s'

omit ctx in
theorem EntriesRead.append {s s' s'' : B.State}
    {entries entries' : List CreateDirectoryEntryRequest} {inputs inputs' : List InputEntry}
    (h : EntriesRead cr px B s entries inputs s')
    (h' : EntriesRead cr px B s' entries' inputs' s'') :
    EntriesRead cr px B s (entries ++ entries') (inputs ++ inputs') s'' := by
  induction h with
  | nil => exact h'
  | skip hpath _ ih => exact .skip hpath (ih h')
  | read hreq _ ih => exact .read hreq (ih h')

theorem resolveSize_ends (cid : Cid) (size : Option UInt64) {w : Sys B}
    (hw : SysOk cr B Valid True [] w) (hi : w.inflight = []) :
    Ends (Sys.answer sched) (resolveSize cr px cid size) w
      (fun n w' => (n, w'.store) = sizeIn cr px B w.store cid size ∧ w'.inflight = [] ∧
        SysOk cr B Valid True [] w') (fun _ _ => False) := by
  cases size with
  | some size => exact Ends.pure ⟨rfl, hi, hw⟩
  | none =>
    have hvalid : Valid (B.answer (.get cid) w.store).2 :=
      (ctx.faithful trivial).get_valid (hw.valid trivial)
    apply storeCall_ends
    rw [Sys.idle_of_inflight sched hi]
    have hend : ∀ n : UInt64, n = sizeFound cr px cid (B.answer (.get cid) w.store).1 →
        (n, (B.answer (.get cid) w.store).2) = sizeIn cr px B w.store cid none ∧
          w.inflight = [] ∧ SysOk cr B Valid True []
            { w with store := (B.answer (.get cid) w.store).2, clock := w.clock + 1 } := by
      refine fun n hn => ⟨by rw [hn]; rfl, hi, fun _ => hvalid, fun f hf => ?_⟩
      rw [show w.inflight = [] from hi] at hf
      cases hf
    cases hr : (B.answer (.get cid) w.store).1 with
    | error e => exact Ends.pure (hend 0 (by rw [hr]; rfl))
    | ok block =>
      dsimp only
      split
      · rename_i hcodec
        split
        · rename_i m hm
          exact Ends.pure (hend _ (by simp [hr, sizeFound, hcodec, hm]))
        · rename_i e hm
          exact Ends.pure (hend _ (by simp [hr, sizeFound, hcodec, hm]))
      · rename_i hcodec
        exact Ends.pure (hend _ (by simp [hr, sizeFound, hcodec]))

theorem readEntry_ends (i : Nat) (entry : CreateDirectoryEntryRequest) {w : Sys B}
    (hw : SysOk cr B Valid True [] w) (hi : w.inflight = []) :
    Ends (Sys.answer sched) (readEntry cr px i entry) w
      (fun input w' => EntriesRead cr px B w.store [entry] input.toList w'.store ∧
        w'.inflight = [] ∧ SysOk cr B Valid True [] w')
      (fun _ _ => True) := by
  unfold readEntry
  cases hcid : cr.cidOfString entry.cid with
  | none => exact Ends.lift nofun fun _ _ => trivial
  | some cid =>
    dsimp only
    cases hlast : (pathParts entry.path).getLast? with
    | none => exact Ends.pure ⟨.skip (List.getLast?_eq_none_iff.1 hlast) (.nil _), hi, hw⟩
    | some filename =>
      have hpath : (pathParts entry.path).dropLast ++ [filename] = pathParts entry.path :=
        List.dropLast_append_getLast? _ hlast
      dsimp only
      split
      · exact Ends.lift nofun fun _ _ => trivial
      · refine Ends.bind (Ends.imp (resolveSize_ends ctx sched cid entry.size hw hi)
          (fun _ _ h => h) fun _ _ _ => trivial) ?_
        rintro size w' ⟨hsize, hi', hw'⟩
        refine Ends.pure ⟨.read ⟨hpath, hcid, congrArg Prod.fst hsize, rfl⟩ ?_, hi', hw'⟩
        rw [← hsize]
        exact .nil _

theorem readEntries_ends (entries : List CreateDirectoryEntryRequest) {w : Sys B}
    (hw : SysOk cr B Valid True [] w) (hi : w.inflight = []) :
    Ends (Sys.answer sched) (readEntries cr px entries) w
      (fun inputs w' => EntriesRead cr px B w.store entries inputs w'.store ∧
        SysOk cr B Valid True [] w')
      (fun _ _ => True) := by
  have hrun := @Ends.foldlM _ _ _ _ _ _ (Sys.answer sched) (fun _ _ => True)
    (fun inputs (p : CreateDirectoryEntryRequest × Nat) => do
      let input ← readEntry cr px p.2 p.1
      return inputs ++ input.toList)
    (fun done inputs w' => EntriesRead cr px B w.store (done.map (·.1)) inputs w'.store ∧
      w'.inflight = [] ∧ SysOk cr B Valid True [] w')
    (fun done p inputs w₁ ⟨hreads, hi₁, hw₁⟩ => by
      refine Ends.bind (readEntry_ends ctx sched p.2 p.1 hw₁ hi₁) ?_
      rintro input w₂ ⟨hread, hi₂, hw₂⟩
      refine Ends.pure ⟨?_, hi₂, hw₂⟩
      rw [List.map_append]
      exact hreads.append hread)
    entries.zipIdx [] [] w ⟨.nil _, hi, hw⟩
  rw [List.nil_append, List.zipIdx_map_fst] at hrun
  exact Ends.mono hrun fun _ _ h => ⟨h.1, h.2.2⟩

end

end

/-! ## Requests -/

/-- The reader that asks a store. -/
def readerOf (B : Backend) (s : B.State) (cid : Cid) : Option Block :=
  (B.answer (.get cid) s).1.toOption

/-- **A directory request keeps the file tree**: the entries with a path are read with the sizes
that they state or the store tells, and the store has, from the returned CID on, these entries at
their paths less the longest prefix common to their directories; every directory on the way is
sorted and has the total size of the files below it. -/
theorem directory_walk {cr : Crates} {B : Backend} {K : Block → Prop} {Valid : B.State → Prop}
    (hcr : cr.Standard) (hB : B.Faithful K Valid) (hK : Consistent K) (px : Prost)
    (sched : Schedule) {s : B.State} (hs : Valid s) {req : CreateDirectoryRequest}
    (hne : req.entries ≠ []) {inputs : List InputEntry} {w : Sys B}
    (hread : Handler.run (readEntries cr px req.entries) sched s = (.ok inputs, w))
    (hsum : (inputs.map (·.size.toNat)).sum < 2 ^ 64)
    (hblocks : ∀ b ∈ (buildTree req.name inputs).blocks cr px, K b) :
    EntriesRead cr px B s req.entries inputs w.store ∧
    ∃ root w', Handler.run (archivistCreateDirectory cr px req) sched s =
        (.ok (root, UInt64.ofNat (inputs.map (·.size.toNat)).sum, inputs.length), w') ∧
      ∃ p files visits, IsCommonDirs inputs p ∧
        Finds cr px (readerOf B w'.store) root files visits ∧
        files.Perm (inputs.map fun e => e.file.seenFrom p) ∧ ∀ v ∈ visits, v.Sound := by
  have ctx : Context cr B K Valid True := ⟨hcr, fun _ => hB, fun _ => hK⟩
  have hstart : SysOk cr B Valid True [] (Sys.start s) := SysOk.start fun _ => hs
  have hreads := @readEntries_ends cr px B K Valid ctx sched req.entries _ hstart rfl
  have hrun : Prog.run (Sys.answer sched) (readEntries cr px req.entries) (Sys.start s) =
    (.ok inputs, w) := hread
  unfold Ends at hreads
  rw [hrun] at hreads
  obtain ⟨hreads, hw⟩ := hreads
  obtain ⟨hgood, p, hp, hperm⟩ := buildTree_contents req.name inputs
  have htotal : total (buildTree req.name inputs).contents =
      (inputs.map (·.size.toNat)).sum := by
    rw [total_perm hperm]
    simp [total, Function.comp_def, FileAt.seenFrom, InputEntry.file]
  have hlt : total (buildTree req.name inputs).contents < 2 ^ 64 := by rwa [htotal]
  have hends : Ends (Sys.answer sched) (archivistCreateDirectory cr px req) (Sys.start s)
      (fun r w' => r = (((buildTree req.name inputs).block cr px).cid,
          UInt64.ofNat (inputs.map (·.size.toNat)).sum, inputs.length) ∧
        ∀ b ∈ (buildTree req.name inputs).blocks cr px, B.Holds w'.store b)
      (fun _ _ => False) := by
    unfold archivistCreateDirectory
    rw [if_neg hne]
    refine Ends.bind (Q := fun inputs' w' => inputs' = inputs ∧ w' = w) ?_ ?_
    · unfold Ends
      rw [hrun]
      exact ⟨rfl, rfl⟩
    · rintro _ _ ⟨rfl, rfl⟩
      refine Ends.bind (buildInner_ends ctx sched hgood hlt hblocks _ hw) ?_
      rintro _ w' ⟨rfl, -, -, hheld⟩
      exact Ends.pure ⟨by rw [htotal], hheld⟩
  obtain ⟨r, hr, rfl, hheld⟩ := Ends.exists_ok hends fun _ _ h => h
  refine ⟨hreads, _, _, Prod.ext hr rfl, p, ?_⟩
  obtain ⟨files, visits, hfinds, hfiles, hsound⟩ := @walk_good cr px (readerOf B _) _
    hgood (fun b hb => congrArg Except.toOption (hheld b hb)) hlt
  exact ⟨files, visits, hp, hfinds, hfiles.trans hperm, hsound⟩

def trackCid : Cid := Cid.newV1 archivistBlockCodec ⟨blake3Code, List.replicate 32 0⟩

def entryAt (path : String) (size : Option UInt64) : CreateDirectoryEntryRequest where
  path
  cid := Crates.standard.cidToString trackCid
  size
  mimetype := none

/-- A file in a directory and two below it, of which one has no size; one entry has no path. -/
def albumRequest : CreateDirectoryRequest where
  entries := [entryAt "album/cover" (some 5), entryAt "/" none, entryAt "album//disc/one" (some 3),
    entryAt "album\\disc\\two" none]
  name := none

def cover : InputEntry :=
  { dirs := ["album"], filename := "cover", cid := trackCid, size := 5, mimetype := "" }

/-- The files of the lower directory; the store does not have the second one's content. -/
def tracks : List InputEntry :=
  [{ dirs := ["album", "disc"], filename := "one", cid := trackCid, size := 3, mimetype := "" },
    { dirs := ["album", "disc"], filename := "two", cid := trackCid, size := 0, mimetype := "" }]

theorem readEntries_album : ∃ w,
    Handler.run (B := RedbStore.backend .standard false)
      (readEntries .standard .standard albumRequest.entries) sampleSchedule RedbStore.empty =
      (.ok (cover :: tracks), w) := by
  have hcid := Crates.standard.cidOfString_toString trackCid
  have hcover : pathParts "album/cover" = ["album", "cover"] := by decide
  have hslash : pathParts "/" = [] := by decide
  have hone : pathParts "album//disc/one" = ["album", "disc", "one"] := by decide
  have htwo : pathParts "album\\disc\\two" = ["album", "disc", "two"] := by decide
  refine ⟨_, Prod.ext ?_ rfl⟩
  simp only [Handler.run, readEntries, albumRequest, entryAt, List.zipIdx_cons, List.zipIdx_nil,
    List.foldlM_cons, List.foldlM_nil, readEntry, hcid, hcover, hslash, hone, htwo]
  rfl

theorem buildTree_album : buildTree none (cover :: tracks) =
    .mk "album" [cover.entry] [("disc", .mk "disc" (tracks.map InputEntry.entry) [])] := by
  simp [buildTree, DirNode.insert, upsert, DirNode.promote, cover, tracks, InputEntry.entry]

def discManifest : DirectoryManifest where
  entries := tracks.map InputEntry.entry
  totalSize := 3
  name := "disc"

def albumManifest : DirectoryManifest where
  entries :=
    [{ name := "disc", cid := (directoryBlock .standard .standard discManifest).cid, size := 3,
       isDirectory := true, mimetype := "" }, cover.entry]
  totalSize := 8
  name := "album"

theorem blocks_album : (buildTree none (cover :: tracks)).blocks .standard .standard =
    [directoryBlock .standard .standard discManifest,
      directoryBlock .standard .standard albumManifest] := by
  have hdisc : directoryManifest "disc" (tracks.map InputEntry.entry) = discManifest := by
    rw [directoryManifest, List.mergeSort_of_pairwise (by decide)]
    rfl
  have halbum : directoryManifest "album" albumManifest.entries = albumManifest := by
    rw [directoryManifest, List.mergeSort_of_pairwise
      (by simp [albumManifest, entryLe, cover, InputEntry.entry])]
    rfl
  have hlower : (DirNode.mk "disc" (tracks.map InputEntry.entry) []).block .standard .standard =
      directoryBlock .standard .standard discManifest := by
    rw [DirNode.block, subdirEntries, List.nil_append, hdisc]
  have hsize : total (DirNode.mk "disc" (tracks.map InputEntry.entry) []).contents = 3 := by
    decide
  have hupper : (DirNode.mk "album" [cover.entry]
      [("disc", .mk "disc" (tracks.map InputEntry.entry) [])]).block .standard .standard =
      directoryBlock .standard .standard albumManifest := by
    rw [DirNode.block, subdirEntries, subdirEntries, hlower, hsize, ← halbum]
    rfl
  rw [buildTree_album, DirNode.blocks, subdirBlocks, subdirBlocks, DirNode.blocks, subdirBlocks,
    hlower, hupper]
  rfl

/-- The directories have different CIDs. -/
theorem consistent_album :
    Consistent (· ∈ (buildTree none (cover :: tracks)).blocks .standard .standard) := by
  have hne : (directoryBlock .standard .standard discManifest).cid ≠
      (directoryBlock .standard .standard albumManifest).cid := by decide +kernel
  rw [blocks_album]
  intro a b ha hb hab
  simp only [List.mem_cons, List.not_mem_nil, or_false] at ha hb
  rcases ha with rfl | rfl <;> rcases hb with rfl | rfl
  · rfl
  · exact absurd hab hne
  · exact absurd hab.symm hne
  · rfl

theorem directory_walk_sample : ∃ w : Sys (RedbStore.backend .standard false), ∃ root w',
    EntriesRead .standard .standard (RedbStore.backend .standard false) RedbStore.empty
      albumRequest.entries (cover :: tracks) w.store ∧
    Handler.run (B := RedbStore.backend .standard false)
        (archivistCreateDirectory .standard .standard albumRequest) sampleSchedule RedbStore.empty =
        (.ok (root, 8, 3), w') ∧
      ∃ p files visits, IsCommonDirs (cover :: tracks) p ∧
        Finds .standard .standard (readerOf (RedbStore.backend .standard false) w'.store) root files
          visits ∧
        files.Perm ((cover :: tracks).map fun e => e.file.seenFrom p) ∧ ∀ v ∈ visits, v.Sound := by
  obtain ⟨w, hread⟩ := readEntries_album
  obtain ⟨hreads, root, w', hrun, hwalk⟩ := directory_walk Crates.standard_standard
    (RedbStore.faithful consistent_album) consistent_album .standard sampleSchedule
    (RedbStore.agrees_empty _) (List.cons_ne_nil _ _) hread (by decide) fun _ hb => hb
  exact ⟨w, root, w', hreads, hrun, hwalk⟩

end Api
