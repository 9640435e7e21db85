import Mangoo.Dbfs.KeyOrder
import Mangoo.Foundation.LittleEndian
import Mangoo.Foundation.RawStore

/-!
# Keys and records as bytes

The structures of `dbfs.h` as they lie in memory on a little-endian machine with 64-bit
alignment, and `dbfs_bt_compare` on them.  A block key has four bytes in front of the inode
number that no one sets.
-/

namespace Mangoo.Dbfs

open Mangoo.Foundation

/-! ## Keys -/

def blockKeyWidths : List Nat := [4, 4, 8, 8]

def encodeKey (padding : UInt32) : Key → List UInt8
  | .fsinfo => leBytes 4 0
  | .dentry ddkPath => leBytes 4 1 ++ (ddkPath.bytes ++ [0])
  | .block dbkIno dbkOffset =>
      packFields blockKeyWidths [2, padding.toNat, dbkIno.toNat, dbkOffset.toNat]

def dkTypeAt (raw : List UInt8) : UInt32 := UInt32.ofNat (fieldAt raw 0 4)

def ddkPathAt (raw : List UInt8) : CStr := cStrAt raw 4

def dbkInoAt (raw : List UInt8) : UInt64 := UInt64.ofNat (fieldAt raw 8 8)

def dbkOffsetAt (raw : List UInt8) : UInt64 := UInt64.ofNat (fieldAt raw 16 8)

/-- The key that the bytes of a `DBT` are, if they have the size of one. -/
def decodeKey (raw : List UInt8) : Option Key :=
  let key := if dkTypeAt raw = 0 then some Key.fsinfo
    else if dkTypeAt raw = 1 then some (.dentry (ddkPathAt raw))
    else if dkTypeAt raw = 2 then some (.block (dbkInoAt raw) (dbkOffsetAt raw))
    else none
  key.filter fun key => decide (raw.length = keySize key)

/-- `dbfs_bt_compare` on what the two `DBT` point to. -/
def dbfsBtCompareRaw (dbt1 dbt2 : List UInt8) : Int :=
  let type1 := dkTypeAt dbt1
  let type2 := dkTypeAt dbt2
  if type1 ≠ type2 then (type1.toInt32 - type2.toInt32).toInt
  else if type1 = 0 then 0
  else if type1 = 1 then strcmp (ddkPathAt dbt1) (ddkPathAt dbt2)
  else if type1 = 2 then
    dbfsBlockCompare (dbkInoAt dbt1) (dbkOffsetAt dbt1) (dbkInoAt dbt2) (dbkOffsetAt dbt2)
  else 0

def Key.rawType : Key → UInt32
  | .fsinfo => 0
  | .dentry _ => 1
  | .block _ _ => 2

theorem encodeKey_eq (padding : UInt32) (key : Key) :
    ∃ rest, encodeKey padding key = leBytes 4 key.rawType.toNat ++ rest := by
  cases key with
  | fsinfo => exact ⟨[], (List.append_nil _).symm⟩
  | dentry path => exact ⟨_, rfl⟩
  | block ino offset => exact ⟨_, rfl⟩

theorem dkTypeAt_encodeKey (padding : UInt32) (key : Key) :
    dkTypeAt (encodeKey padding key) = key.rawType := by
  obtain ⟨rest, hrest⟩ := encodeKey_eq padding key
  have hlt := key.rawType.toNat_lt
  have hfield := @fieldAt_leBytes [] rest 0 4 key.rawType.toNat rfl hlt
  rw [List.nil_append, ← hrest] at hfield
  rw [dkTypeAt, hfield, UInt32.ofNat_toNat]

theorem ddkPathAt_encodeKey (padding : UInt32) (path : CStr) :
    ddkPathAt (encodeKey padding (.dentry path)) = path :=
  cStrAt_of_append path (length_leBytes 4 1)

theorem dbkInoAt_encodeKey (padding : UInt32) (ino offset : UInt64) :
    dbkInoAt (encodeKey padding (.block ino offset)) = ino := by
  have hsplit : encodeKey padding (.block ino offset) =
      (leBytes 4 2 ++ leBytes 4 padding.toNat) ++
        (leBytes 8 ino.toNat ++ (leBytes 8 offset.toNat ++ [])) :=
    (List.append_assoc ..).symm
  rw [dbkInoAt, hsplit, fieldAt_leBytes (by simp) ino.toNat_lt, UInt64.ofNat_toNat]

theorem dbkOffsetAt_encodeKey (padding : UInt32) (ino offset : UInt64) :
    dbkOffsetAt (encodeKey padding (.block ino offset)) = offset := by
  have hsplit : encodeKey padding (.block ino offset) =
      (leBytes 4 2 ++ (leBytes 4 padding.toNat ++ leBytes 8 ino.toNat)) ++
        (leBytes 8 offset.toNat ++ []) := by
    rw [List.append_assoc, List.append_assoc]
    rfl
  rw [dbkOffsetAt, hsplit, fieldAt_leBytes (by simp) offset.toNat_lt, UInt64.ofNat_toNat]

theorem length_encodeKey (padding : UInt32) (key : Key) :
    (encodeKey padding key).length = keySize key := by
  cases key with
  | fsinfo => exact length_leBytes 4 0
  | dentry path =>
      rw [encodeKey, List.length_append, length_leBytes, List.length_append]
      exact (Nat.add_assoc ..).symm
  | block ino offset => exact length_packFields rfl

theorem decodeKey_encodeKey (padding : UInt32) (key : Key) :
    decodeKey (encodeKey padding key) = some key := by
  rw [decodeKey, dkTypeAt_encodeKey]
  have hlength := length_encodeKey padding key
  cases key with
  | fsinfo => simpa [Key.rawType] using hlength
  | dentry path => simpa [Key.rawType, ddkPathAt_encodeKey] using hlength
  | block ino offset =>
      simpa [Key.rawType, dbkInoAt_encodeKey, dbkOffsetAt_encodeKey] using hlength

theorem toNat_dkTypeAt (raw : List UInt8) : (dkTypeAt raw).toNat = fieldAt raw 0 4 := by
  have hlt := leValue_lt ((raw.drop 0).take 4)
  have hle : 256 ^ ((raw.drop 0).take 4).length ≤ 256 ^ 4 :=
    Nat.pow_le_pow_right (by decide) (List.length_take_le _ _)
  rw [dkTypeAt, UInt32.toNat_ofNat']
  exact Nat.mod_eq_of_lt (lt_of_lt_of_le hlt hle)

theorem take_four {raw : List UInt8} (h : 4 ≤ raw.length) :
    raw.take 4 = leBytes 4 (dkTypeAt raw).toNat := by
  have hvalue := leBytes_leValue (raw.take 4)
  rw [List.length_take_of_le h] at hvalue
  rw [toNat_dkTypeAt]
  exact hvalue.symm

theorem packFields_blockKey {raw : List UInt8} (h : raw.length = 24) :
    ∃ padding : UInt32, raw = packFields blockKeyWidths
      [(dkTypeAt raw).toNat, padding.toNat, (dbkInoAt raw).toNat, (dbkOffsetAt raw).toNat] := by
  have hwidths : raw.length = blockKeyWidths.sum := h
  have hfields := lt_of_mem_unpackFields hwidths
  have hpack := packFields_unpackFields hwidths
  simp only [blockKeyWidths, unpackFields, List.drop_drop, Nat.reduceAdd,
    List.forall₂_cons] at hfields hpack
  have hpadding : fieldAt raw 4 4 < 2 ^ 32 := hfields.2.1
  have hino : fieldAt raw 8 8 < 2 ^ 64 := hfields.2.2.1
  have hoffset : fieldAt raw 16 8 < 2 ^ 64 := hfields.2.2.2.1
  refine ⟨UInt32.ofNat (fieldAt raw 4 4), ?_⟩
  rw [toNat_dkTypeAt, dbkInoAt, dbkOffsetAt, UInt32.toNat_ofNat_of_lt' hpadding,
    UInt64.toNat_ofNat_of_lt' hino, UInt64.toNat_ofNat_of_lt' hoffset]
  exact hpack.symm

theorem encodeKey_of_decodeKey {raw : List UInt8} {key : Key} (h : decodeKey raw = some key) :
    ∃ padding, raw = encodeKey padding key := by
  rw [decodeKey, Option.filter_eq_some_iff, decide_eq_true_eq] at h
  obtain ⟨hkey, hlength⟩ := h
  split_ifs at hkey with hfsinfo hdentry hblock
  · cases hkey
    have hfour : raw.length = 4 := hlength
    have htake := take_four (le_of_eq hfour.symm)
    rw [hfsinfo, List.take_of_length_le (le_of_eq hfour)] at htake
    exact ⟨0, htake⟩
  · cases hkey
    refine ⟨0, ?_⟩
    have hsplit := append_cStrAt hlength
    rwa [take_four (by rw [hlength, keySize, dbfsDdkSize]; omega), hdentry] at hsplit
  · cases hkey
    obtain ⟨padding, hraw⟩ := packFields_blockKey hlength
    rw [hblock] at hraw
    exact ⟨padding, hraw⟩

theorem decodeKey_eq_some_iff {raw : List UInt8} {key : Key} :
    decodeKey raw = some key ↔ ∃ padding, raw = encodeKey padding key := by
  constructor
  · exact encodeKey_of_decodeKey
  · rintro ⟨padding, rfl⟩
    exact decodeKey_encodeKey padding key

theorem dbfsBtCompareRaw_encodeKey (padding1 padding2 : UInt32) (key1 key2 : Key) :
    dbfsBtCompareRaw (encodeKey padding1 key1) (encodeKey padding2 key2) =
      dbfsBtCompare key1 key2 := by
  unfold dbfsBtCompareRaw
  rw [dkTypeAt_encodeKey, dkTypeAt_encodeKey]
  cases key1 with
  | fsinfo => cases key2 <;> simp [Key.rawType, dbfsBtCompare, Key.dkType]
  | dentry path1 =>
      cases key2 with
      | fsinfo => simp [Key.rawType, dbfsBtCompare, Key.dkType]
      | dentry path2 => simp [Key.rawType, dbfsBtCompare_dentry, ddkPathAt_encodeKey]
      | block ino2 offset2 => simp [Key.rawType, dbfsBtCompare, Key.dkType]
  | block ino1 offset1 =>
      cases key2 with
      | fsinfo => simp [Key.rawType, dbfsBtCompare, Key.dkType]
      | dentry path2 => simp [Key.rawType, dbfsBtCompare, Key.dkType]
      | block ino2 offset2 =>
          simp [Key.rawType, dbfsBtCompare_block, dbkInoAt_encodeKey, dbkOffsetAt_encodeKey]

theorem dbfsBtCompareRaw_eq {raw1 raw2 : List UInt8} {key1 key2 : Key}
    (h1 : decodeKey raw1 = some key1) (h2 : decodeKey raw2 = some key2) :
    dbfsBtCompareRaw raw1 raw2 = dbfsBtCompare key1 key2 := by
  obtain ⟨padding1, rfl⟩ := encodeKey_of_decodeKey h1
  obtain ⟨padding2, rfl⟩ := encodeKey_of_decodeKey h2
  exact dbfsBtCompareRaw_encodeKey padding1 padding2 key1 key2

/-! ## Records -/

def dentryDataWidths : List Nat := [4, 4, 8, 8, 8, 8, 4, 4]

def DentryData.fields (ddd : DentryData) : List Nat :=
  [ddd.dddType.toNat, ddd.dddMode.toNat, ddd.dddIno.toNat, ddd.dddSize.toNat,
    ddd.dddMtime.toNat, ddd.dddAtime.toNat, ddd.dddUid.toNat, ddd.dddGid.toNat]

def DentryData.ofFields? : List Nat → Option DentryData
  | [type, mode, ino, size, mtime, atime, uid, gid] =>
      some ⟨.ofNat type, .ofNat mode, .ofNat ino, .ofNat size, .ofNat mtime, .ofNat atime,
        .ofNat uid, .ofNat gid⟩
  | _ => none

/-- The data of the `DBT` that a record is stored with. -/
def encodeRecord : (key : Key) → Rec key → List UInt8
  | .fsinfo, dfd => leBytes 8 (FsinfoData.dfdLastino dfd).toNat
  | .dentry _, ddd => packFields dentryDataWidths (DentryData.fields ddd)
  | .block _ _, data => data

/-- What a structure of the record's type holds once the data is in it. -/
def decodeRecord : (key : Key) → List UInt8 → Option (Rec key)
  | .fsinfo, raw =>
      if raw.length = 8 then some (FsinfoData.mk (UInt64.ofNat (leValue raw))) else none
  | .dentry _, raw =>
      if raw.length = 48 then DentryData.ofFields? (unpackFields dentryDataWidths raw) else none
  | .block _ _, raw => some raw

def recordSize : (key : Key) → Rec key → Nat
  | .fsinfo, _ => 8
  | .dentry _, _ => 48
  | .block _ _, data => List.length data

theorem DentryData.forall₂_fields (ddd : DentryData) :
    List.Forall₂ (fun width n => n < 256 ^ width) dentryDataWidths ddd.fields := by
  refine .cons ?_ <| .cons ?_ <| .cons ?_ <| .cons ?_ <| .cons ?_ <| .cons ?_ <| .cons ?_ <|
    .cons ?_ .nil
  all_goals first | exact UInt32.toNat_lt _ | exact UInt64.toNat_lt _

theorem DentryData.ofFields?_fields (ddd : DentryData) :
    DentryData.ofFields? ddd.fields = some ddd := by
  simp [DentryData.ofFields?, DentryData.fields]

theorem length_encodeRecord (key : Key) (record : Rec key) :
    (encodeRecord key record).length = recordSize key record := by
  cases key with
  | fsinfo => exact length_leBytes _ _
  | dentry path => exact length_packFields rfl
  | block ino offset => rfl

theorem decodeRecord_encodeRecord (key : Key) (record : Rec key) :
    decodeRecord key (encodeRecord key record) = some record := by
  have hlength := length_encodeRecord key record
  cases key with
  | fsinfo =>
      change (encodeRecord .fsinfo record).length = 8 at hlength
      rw [decodeRecord, if_pos hlength, encodeRecord, leValue_leBytes (UInt64.toNat_lt _),
        UInt64.ofNat_toNat]
  | dentry path =>
      change (encodeRecord (.dentry path) record).length = 48 at hlength
      rw [decodeRecord, if_pos hlength, encodeRecord,
        unpackFields_packFields (DentryData.forall₂_fields _), DentryData.ofFields?_fields]
  | block ino offset => rfl

theorem DentryData.fields_of_ofFields? {ns : List Nat} {ddd : DentryData}
    (h : DentryData.ofFields? ns = some ddd)
    (hns : List.Forall₂ (fun width n => n < 256 ^ width) dentryDataWidths ns) :
    ddd.fields = ns := by
  unfold DentryData.ofFields? at h
  split at h
  · simp only [dentryDataWidths, List.forall₂_cons] at hns
    obtain ⟨htype, hmode, hino, hsize, hmtime, hatime, huid, hgid, -⟩ := hns
    cases h
    simp only [DentryData.fields, UInt32.toNat_ofNat_of_lt' htype,
      UInt32.toNat_ofNat_of_lt' hmode, UInt64.toNat_ofNat_of_lt' hino,
      UInt64.toNat_ofNat_of_lt' hsize, UInt64.toNat_ofNat_of_lt' hmtime,
      UInt64.toNat_ofNat_of_lt' hatime, UInt32.toNat_ofNat_of_lt' huid,
      UInt32.toNat_ofNat_of_lt' hgid]
  · cases h

theorem encodeRecord_of_decodeRecord {key : Key} {raw : List UInt8} {record : Rec key}
    (h : decodeRecord key raw = some record) : raw = encodeRecord key record := by
  cases key with
  | fsinfo =>
      rw [decodeRecord] at h
      split_ifs at h with hlength
      cases h
      have hlt := leValue_lt raw
      rw [hlength] at hlt
      have hbytes := leBytes_leValue raw
      rw [hlength] at hbytes
      rw [encodeRecord, UInt64.toNat_ofNat_of_lt' hlt, hbytes]
  | dentry path =>
      rw [decodeRecord] at h
      split_ifs at h with hlength
      have hfields := DentryData.fields_of_ofFields? h (lt_of_mem_unpackFields hlength)
      rw [encodeRecord, hfields, packFields_unpackFields hlength]
  | block ino offset =>
      cases h
      rfl

theorem decodeRecord_eq_some_iff {key : Key} {raw : List UInt8} {record : Rec key} :
    decodeRecord key raw = some record ↔ raw = encodeRecord key record := by
  constructor
  · exact encodeRecord_of_decodeRecord
  · rintro rfl
    exact decodeRecord_encodeRecord key record

/-! ## The format -/

/-- The bytes of the store, in the order of `dbfs_bt_compare`. -/
def dbfsFormat : RawFormat (List UInt8) (List UInt8) Rec where
  compare := dbfsBtCompareRaw
  key := decodeKey
  data := encodeRecord
  record := decodeRecord
  exists_key key := ⟨encodeKey 0 key, decodeKey_encodeKey 0 key⟩
  compare_lt h1 h2 := by rw [dbfsBtCompareRaw_eq h1 h2, Key.lt_iff]
  compare_eq h1 h2 := by rw [dbfsBtCompareRaw_eq h1 h2, dbfsBtCompare_eq_zero]
  record_data := decodeRecord_encodeRecord

/--
The bytes of a key determine the key, and a key its bytes but for the padding of a block
key, which the comparison does not see.  A record and its bytes determine each other.
-/
theorem keys_and_records_determined :
    (∀ raw key, decodeKey raw = some key ↔ ∃ padding, raw = encodeKey padding key) ∧
    (∀ raw key, decodeKey raw = some key → raw.length = keySize key) ∧
    (∀ raw1 raw2 key1 key2, decodeKey raw1 = some key1 → decodeKey raw2 = some key2 →
      (dbfsBtCompareRaw raw1 raw2 = 0 ↔ key1 = key2) ∧
        (dbfsBtCompareRaw raw1 raw2 < 0 ↔ key1 < key2)) ∧
    (∀ key raw (record : Rec key),
      decodeRecord key raw = some record ↔ raw = encodeRecord key record) ∧
    ∀ key (record : Rec key), (encodeRecord key record).length = recordSize key record := by
  refine ⟨fun _ _ => decodeKey_eq_some_iff, ?_, ?_, fun _ _ _ => decodeRecord_eq_some_iff,
    length_encodeRecord⟩
  · intro raw key hkey
    obtain ⟨padding, rfl⟩ := encodeKey_of_decodeKey hkey
    exact length_encodeKey padding key
  · intro raw1 raw2 key1 key2 h1 h2
    exact ⟨dbfsFormat.compare_eq h1 h2, dbfsFormat.compare_lt h1 h2⟩

end Mangoo.Dbfs
