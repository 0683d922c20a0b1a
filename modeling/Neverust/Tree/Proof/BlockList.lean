import Neverust.CidForms
import Neverust.Tree.BlockList

/-!
# Truncated block lists

* `readEntry_truncated`: an entry that is cut off, in its length or in its CID, is an error.
* `readEntries_truncated`: so is a list of entries that is cut off anywhere.
* `block_list_exact`: a block list reads back, and no proper prefix of its bytes is a block list.
-/

/-- The values of the crate's type: version 0 or 1, a digest that fits the multihash. -/
def Cid.Valid (c : Cid) : Prop := c.version ≤ 1 ∧ c.hash.digest.length ≤ multihashSize

theorem Cid.length_toBytes {c : Cid} (h : c.Valid) : c.toBytes.length < 2 ^ 32 := by
  have hversion := Multiformats.length_varint_le (n := c.version) (by have := h.1; omega)
  have hcodec := Multiformats.length_varint_le c.codec.toNat_lt
  have hcode := Multiformats.length_varint_le c.hash.code.toNat_lt
  have hdigest : c.hash.digest.length ≤ 64 := h.2
  have hsize := Multiformats.length_varint_le (n := c.hash.digest.length) (by omega)
  simp only [Cid.toBytes, List.length_append]
  omega

namespace Tree

open Rust

variable {cr : Crates}

theorem readExact_short {msg : String} {n : Nat} {data : Bytes} (h : data.length < n) :
    readExact msg n data = .error (.err (.cidError msg)) := by
  rw [readExact, if_neg (Nat.not_le.2 h)]

/-- A cut entry ends in its length or in its CID. -/
theorem readEntry_truncated {cid : Cid} (h : (cr.cidToBytes cid).length < 2 ^ 32) {k : Nat}
    (hk : k < (cidEntry cr cid).length) :
    ∃ e, readEntry cr ((cidEntry cr cid).take k) = .error (.err e) := by
  rw [cidEntry, List.length_append, length_u32Bytes] at hk
  by_cases h4 : k < 4
  · have hshort : ((cidEntry cr cid).take k).length < 4 := by
      rw [List.length_take]
      omega
    exact ⟨_, by rw [readEntry, readExact_short hshort]; rfl⟩
  · have htake : (cidEntry cr cid).take k =
        u32Bytes (cr.cidToBytes cid).length ++ (cr.cidToBytes cid).take (k - 4) := by
      rw [cidEntry, List.take_append, length_u32Bytes, List.take_of_length_le]
      rw [length_u32Bytes]
      omega
    have hshort : ((cr.cidToBytes cid).take (k - 4)).length <
        Bytes.ofLe (u32Bytes (cr.cidToBytes cid).length) := by
      rw [ofLe_u32Bytes h, List.length_take]
      omega
    refine ⟨.cidError "Failed to read CID bytes", ?_⟩
    rw [htake, readEntry, readExact_append _ _ (length_u32Bytes _), ok_bind]
    show (readExact "Failed to read CID bytes" _ _ >>= _) = _
    rw [readExact_short hshort]
    rfl

theorem readEntries_truncated :
    ∀ (cids : List Cid), (∀ c ∈ cids, (cr.cidToBytes c).length < 2 ^ 32) →
      ∀ k < (cids.flatMap (cidEntry cr)).length,
        ∃ e, readEntries cr cids.length ((cids.flatMap (cidEntry cr)).take k) = .error (.err e)
  | [], _, k, hk => absurd hk (Nat.not_lt_zero k)
  | c :: cids, h, k, hk => by
    have hc := h c List.mem_cons_self
    rw [List.flatMap_cons, List.length_append] at hk
    rw [List.length_cons, readEntries, List.flatMap_cons]
    by_cases hcut : k < (cidEntry cr c).length
    · -- The cut is in the first entry.
      obtain ⟨e, he⟩ := readEntry_truncated hc hcut
      rw [List.take_append_of_le_length (Nat.le_of_lt hcut), he]
      exact ⟨e, rfl⟩
    · obtain ⟨e, he⟩ := readEntries_truncated cids (fun c' hc' => h c' (List.mem_cons_of_mem c hc'))
        (k - (cidEntry cr c).length) (by omega)
      refine ⟨e, ?_⟩
      rw [List.take_append, List.take_of_length_le (Nat.not_lt.1 hcut), readEntry_cidEntry hc,
        ok_bind]
      show (do let cids ← readEntries cr cids.length _; _) = _
      rw [he]
      rfl

theorem deserializeBlockList_truncated {t : ArchivistTree} (hlen : t.blockCids.length < 2 ^ 32)
    (hcid : ∀ c ∈ t.blockCids, (cr.cidToBytes c).length < 2 ^ 32) {k : Nat}
    (hk : k < (t.serializeBlockList cr).length) :
    ∃ e, deserializeBlockList cr ((t.serializeBlockList cr).take k) = .error (.err e) := by
  rw [ArchivistTree.serializeBlockList, List.length_append, length_u32Bytes] at hk
  by_cases h4 : k < 4
  · have hshort : ((t.serializeBlockList cr).take k).length < 4 := by
      rw [List.length_take]
      omega
    exact ⟨_, by rw [deserializeBlockList, readExact_short hshort]; rfl⟩
  · obtain ⟨e, he⟩ := readEntries_truncated t.blockCids hcid (k - 4) (by omega)
    refine ⟨e, ?_⟩
    rw [ArchivistTree.serializeBlockList, List.take_append, length_u32Bytes,
      List.take_of_length_le (by rw [length_u32Bytes]; omega), deserializeBlockList,
      readExact_append _ _ (length_u32Bytes _), ok_bind]
    show readEntries cr (Bytes.ofLe (u32Bytes t.blockCids.length)) _ = _
    rw [ofLe_u32Bytes hlen]
    exact he

/-- **The codec of block lists is exact**: with CIDs whose bytes read back and are as short as the
crate's are, a list of fewer than `2 ^ 32` CIDs reads back, and every proper prefix of its bytes is
refused. -/
theorem block_list_exact (cr : Crates)
    (hbytes : ∀ c : Cid, c.Valid → (cr.cidToBytes c).length < 2 ^ 32) (t : ArchivistTree)
    (hlen : t.blockCids.length < 2 ^ 32) (hcid : ∀ c ∈ t.blockCids, c.Valid) :
    deserializeBlockList cr (t.serializeBlockList cr) = .ok t.blockCids ∧
      ∀ data, data <+: t.serializeBlockList cr → data ≠ t.serializeBlockList cr →
        ∃ e, deserializeBlockList cr data = .error (.err e) := by
  have hshort : ∀ c ∈ t.blockCids, (cr.cidToBytes c).length < 2 ^ 32 :=
    fun c hc => hbytes c (hcid c hc)
  refine ⟨deserializeBlockList_serialize hlen hshort, fun data hpre hne => ?_⟩
  have hlt : data.length < (t.serializeBlockList cr).length :=
    Nat.lt_of_le_of_ne hpre.length_le fun heq => hne (hpre.eq_of_length heq)
  rw [List.prefix_iff_eq_take.1 hpre]
  exact deserializeBlockList_truncated hlen hshort hlt

/-- Two CIDs, and their list without the last byte. -/
theorem block_list_exact_two :
    let cids : List Cid := [.newV1 0xcd02 ⟨0x12, [1, 2, 3]⟩, .newV1 0xcd02 ⟨0x1e, []⟩]
    let t : ArchivistTree := { layers := [], blockCids := cids }
    deserializeBlockList .standard (t.serializeBlockList .standard) = .ok cids ∧
      ∃ e, deserializeBlockList .standard (t.serializeBlockList .standard).dropLast =
        .error (.err e) := by
  intro cids t
  have hcid : ∀ c ∈ cids, c.Valid := by
    simp [cids, Cid.Valid, Cid.newV1, multihashSize]
  have h := block_list_exact .standard (fun _ hc => Cid.length_toBytes hc) t (by decide) hcid
  refine ⟨h.1, h.2 _ (List.dropLast_prefix _) fun heq => ?_⟩
  have hlen := congrArg List.length heq
  rw [List.length_dropLast, ArchivistTree.serializeBlockList, List.length_append,
    length_u32Bytes] at hlen
  omega

end Tree
