import XY1100.Lwm2m.Data

/-!
# Lwm2m — resources as TLV

The TLV format of LwM2M payloads (`tlv.c`): resources, and object instances and multiple resources
that hold others.

* `serialize_fills`: the buffer that is allocated is filled exactly.
* `parse_serialize`: what is serialized is parsed again, each value as its bytes.
* `values_arrive`: from these bytes, and from the text of a value, the decoders read the value.
* `parse_canonical`: what is parsed is serialized again in no more bytes, and parsed the same.
-/

namespace XY1100.Lwm2m
open Support

/-- `prv_encodeInt`: the shortest of the four lengths. -/
def prvEncodeInt (data : Int64) : List UInt8 :=
  let v := data.toInt
  if -128 ≤ v ∧ v ≤ 127 then BigEndian.ofInt 1 v
  else if -32768 ≤ v ∧ v ≤ 32767 then BigEndian.ofInt 2 v
  else if -2147483648 ≤ v ∧ v ≤ 2147483647 then BigEndian.ofInt 4 v
  else BigEndian.ofInt 8 v

/-- `FLT_MAX`, as a `double`. -/
def FLT_MAX : UInt64 := 0x47EFFFFFE0000000

/-- The magnitude of a `double`; what is above that of an infinity is no number. -/
def magnitude (data : UInt64) : UInt64 := data &&& 0x7FFFFFFFFFFFFFFF

/-- `data < 0.0 - FLT_MAX || data > FLT_MAX`, which is false of what is no number. -/
def BeyondFloat (data : UInt64) : Prop :=
  FLT_MAX < magnitude data ∧ magnitude data ≤ 0x7FF0000000000000

instance (data : UInt64) : Decidable (BeyondFloat data) := inferInstanceAs (Decidable (_ ∧ _))

/-- A number without its last `shift` bits, rounded to the nearest, and to the even one of two. -/
def shiftRounding (m shift : Nat) : Nat :=
  let q := m / 2 ^ shift
  let r := m % 2 ^ shift
  if 2 ^ shift < 2 * r ∨ 2 ^ shift = 2 * r ∧ q % 2 = 1 then q + 1 else q

/-- `(float)data`, where that is in range. -/
def toFloat (data : UInt64) : UInt32 :=
  if 0x7FF0000000000000 < magnitude data then 0x7FC00000
  else
    let fraction := (magnitude data).toNat % 2 ^ 52
    let exponent := (magnitude data).toNat / 2 ^ 52
    let m := if exponent = 0 then fraction else 2 ^ 52 + fraction
    -- the exponents differ by 1023 - 127; the least one is that of the subnormal numbers
    let e := max exponent 1
    let e' := max (e - 896) 1
    let sign := if data < 0x8000000000000000 then 0 else 0x80000000
    -- the leading bit of a normal number adds one to its exponent
    UInt32.ofNat (sign + (e' - 1) * 2 ^ 23 + shiftRounding m (925 + e' - e))

/-- `prv_encodeFloat`. -/
def prvEncodeFloat (data : UInt64) : List UInt8 :=
  if BeyondFloat data then BigEndian.ofNat 8 data.toNat
  else BigEndian.ofNat 4 (toFloat data).toNat

/-- The bytes of a value, `none` for no type. -/
def LeafValue.bytes : LeafValue → Option (List UInt8)
  | .undefined => none
  | .string buffer => some buffer
  | .opaqueBytes buffer => some buffer
  | .integer value => some (prvEncodeInt value)
  | .float value => some (prvEncodeFloat value)
  | .boolean value => some [if value then 1 else 0]
  | .objectLink objectId objectInstanceId =>
    some (BigEndian.ofNat 2 objectId.toNat ++ BigEndian.ofNat 2 objectInstanceId.toNat)

/-! ### Headers -/

def PRV_TLV_TYPE_MASK : UInt8 := 0xC0
def PRV_TLV_TYPE_UNKNOWN : UInt8 := 0xFF
def PRV_TLV_TYPE_OBJECT : UInt8 := 0x10
def PRV_TLV_TYPE_OBJECT_INSTANCE : UInt8 := 0x00
def PRV_TLV_TYPE_RESOURCE : UInt8 := 0xC0
def PRV_TLV_TYPE_MULTIPLE_RESOURCE : UInt8 := 0x80
def PRV_TLV_TYPE_RESOURCE_INSTANCE : UInt8 := 0x40

/-- `prv_getHeaderType`. -/
def prvGetHeaderType : DataType → UInt8
  | .object => PRV_TLV_TYPE_OBJECT
  | .objectInstance => PRV_TLV_TYPE_OBJECT_INSTANCE
  | .multipleResource => PRV_TLV_TYPE_MULTIPLE_RESOURCE
  | .string | .integer | .float | .boolean | .opaqueBytes | .objectLink => PRV_TLV_TYPE_RESOURCE
  | .undefined => PRV_TLV_TYPE_UNKNOWN

/-- `prv_getDataType`. -/
def prvGetDataType (type : UInt8) : DataType :=
  if type = PRV_TLV_TYPE_OBJECT then .object
  else if type = PRV_TLV_TYPE_OBJECT_INSTANCE then .objectInstance
  else if type = PRV_TLV_TYPE_MULTIPLE_RESOURCE then .multipleResource
  else if type = PRV_TLV_TYPE_RESOURCE ∨ type = PRV_TLV_TYPE_RESOURCE_INSTANCE then .opaqueBytes
  else .undefined

/-- `prv_getHeaderLength`. -/
def prvGetHeaderLength (id : UInt16) (dataLen : Nat) : Nat :=
  2 + (if 0xFF < id then 1 else 0) +
    (if 0xFFFF < dataLen then 3 else if 0xFF < dataLen then 2 else if 7 < dataLen then 1 else 0)

/-- `prv_createHeader`, for data whose length fits 24 bits. -/
def prvCreateHeader (isInstance : Bool) (type : DataType) (id : UInt16) (dataLen : Nat) :
    List UInt8 :=
  let hdrType := if isInstance then PRV_TLV_TYPE_RESOURCE_INSTANCE else prvGetHeaderType type
  let first := (hdrType &&& PRV_TLV_TYPE_MASK) ||| (if 0xFF < id then 0x20 else 0)
  let ids := if 0xFF < id then BigEndian.ofNat 2 id.toNat else [id.toUInt8]
  if dataLen ≤ 7 then (first + UInt8.ofNat dataLen) :: ids
  else if dataLen ≤ 0xFF then (first ||| 0x08) :: ids ++ BigEndian.ofNat 1 dataLen
  else if dataLen ≤ 0xFFFF then (first ||| 0x10) :: ids ++ BigEndian.ofNat 2 dataLen
  else (first ||| 0x18) :: ids ++ BigEndian.ofNat 3 dataLen

/-- `lwm2m_decode_TLV`: type, id, and where the data lies; `none` where it returns `0`. -/
def decodeTLV (buffer : List UInt8) : Option (DataType × UInt16 × Nat × Nat) :=
  let byte (i : Nat) : UInt8 := buffer.getD i 0
  let bytes (i n : Nat) : Nat := BigEndian.toNat ((buffer.drop i).take n)
  if buffer.length < 2 then none
  else
    let type := prvGetDataType (byte 0 &&& PRV_TLV_TYPE_MASK)
    let wide := byte 0 &&& 0x20 = 0x20
    if wide ∧ buffer.length < 3 then none
    else
      let id := UInt16.ofNat (if wide then bytes 1 2 else bytes 1 1)
      let index := if wide then 3 else 2
      -- the bytes of the length field
      let size := ((byte 0 &&& 0x18) >>> 3).toNat
      if buffer.length < index + size then none
      else
        let dataLen := if size = 0 then (byte 0 &&& 0x07).toNat else bytes index size
        if buffer.length < index + size + dataLen then none
        else some (type, id, index + size, dataLen)

/-! ### Serializing -/

/-- What `prv_getLength` counts for a value. -/
def LeafValue.dataLen : LeafValue → Option Nat
  | .undefined => none
  | .string buffer => some buffer.length
  | .opaqueBytes buffer => some buffer.length
  | .integer value => some (prvEncodeInt value).length
  | .float value => some (if BeyondFloat value then 8 else 4)
  | .boolean _ => some 1
  | .objectLink _ _ => some 4

mutual

/-- A turn of `prv_getLength`. -/
def nodeLength : Lwm2mData → Option Nat
  | .leaf id value => value.dataLen.map fun n => prvGetHeaderLength id n + n
  | .composite .object _ _ => none
  | .composite _ id children =>
    (prvGetLength children).map fun n => prvGetHeaderLength id n + n

/-- `prv_getLength`, `none` for `-1`. -/
def prvGetLength : List Lwm2mData → Option Nat
  | [] => some 0
  | d :: data =>
    match nodeLength d with
    | none => none
    | some n => (prvGetLength data).map (n + ·)

end

mutual

/-- A turn of the loop of `tlv_serialize`. -/
def nodeBytes (isResourceInstance : Bool) : Lwm2mData → Option (List UInt8)
  | .leaf id value =>
    value.bytes.map fun bs => prvCreateHeader isResourceInstance value.type id bs.length ++ bs
  | .composite .object _ _ => none
  | .composite type id children =>
    -- `tlv_serialize` of the children
    match prvGetLength children with
    | none => none
    | some 0 => some (prvCreateHeader false type.type id 0)
    | some _ =>
      (serializeLoop (isResourceInstance || type = .multipleResource) children).map fun bs =>
        prvCreateHeader false type.type id bs.length ++ bs

/-- The loop of `tlv_serialize`. -/
def serializeLoop (isResourceInstance : Bool) : List Lwm2mData → Option (List UInt8)
  | [] => some []
  | d :: data =>
    match nodeBytes isResourceInstance d with
    | none => none
    | some bs => (serializeLoop isResourceInstance data).map (bs ++ ·)

end

/-- `tlv_serialize`, `none` for `-1`. -/
def tlvSerialize (isResourceInstance : Bool) (data : List Lwm2mData) : Option (List UInt8) :=
  match prvGetLength data with
  | none => none
  | some 0 => some []
  | some _ => serializeLoop isResourceInstance data

/-! ### Parsing -/

/-- A node of a type with data, `none` where the children cannot be parsed. -/
def parsedNode (type : DataType) (id : UInt16) (data : List UInt8)
    (children : Option (List Lwm2mData)) : Option Lwm2mData :=
  match type, children with
  | .objectInstance, none | .objectInstance, some [] => none
  | .objectInstance, some children => some (.composite .objectInstance id children)
  | .multipleResource, none | .multipleResource, some [] => none
  | .multipleResource, some children => some (.composite .multipleResource id children)
  | _, _ => some (.leaf id (.opaqueBytes data))

/-- The loop of `tlv_parse`, `none` where it gives up.  A turn takes at least two bytes. -/
def parseLoop : Nat → List UInt8 → Option (List Lwm2mData)
  | 0, _ => some []
  | n + 1, buffer =>
    match decodeTLV buffer with
    | none => some []
    | some (type, id, dataIndex, dataLen) =>
      let data := (buffer.drop dataIndex).take dataLen
      match parsedNode type id data (parseLoop n data) with
      | none => none
      | some node => (parseLoop n (buffer.drop (dataIndex + dataLen))).map (node :: ·)

/-- `tlv_parse`; where it returns `0` there is no data. -/
def tlvParse (buffer : List UInt8) : List Lwm2mData := (parseLoop buffer.length buffer).getD []

/-! ### Headers are read back -/

/-- The bytes of the length field. -/
def sizeBytes (dataLen : Nat) : Nat :=
  if dataLen ≤ 7 then 0 else if dataLen ≤ 0xFF then 1 else if dataLen ≤ 0xFFFF then 2 else 3

/-- The first byte of a header. -/
def firstByte (kind : UInt8) (wide : Bool) (size dataLen : Nat) : UInt8 :=
  let first := kind ||| (if wide then 0x20 else 0)
  if size = 0 then first + UInt8.ofNat dataLen else first ||| UInt8.ofNat (8 * size)

/-- The four types of a header. -/
def kinds : List UInt8 :=
  [PRV_TLV_TYPE_OBJECT_INSTANCE, PRV_TLV_TYPE_RESOURCE_INSTANCE, PRV_TLV_TYPE_MULTIPLE_RESOURCE,
    PRV_TLV_TYPE_RESOURCE]

set_option maxRecDepth 4000 in
theorem firstByte_parts : ∀ kind ∈ kinds, ∀ wide : Bool, ∀ size < 4, ∀ dataLen < 8,
    firstByte kind wide size dataLen &&& PRV_TLV_TYPE_MASK = kind ∧
      (firstByte kind wide size dataLen &&& 0x20 = 0x20 ↔ wide = true) ∧
      ((firstByte kind wide size dataLen &&& 0x18) >>> 3).toNat = size ∧
      (size = 0 → (firstByte kind wide size dataLen &&& 0x07).toNat = dataLen) := by
  decide

/-- The type a header is written with. -/
def headerKind (isInstance : Bool) (type : DataType) : UInt8 :=
  (if isInstance then PRV_TLV_TYPE_RESOURCE_INSTANCE else prvGetHeaderType type) &&&
    PRV_TLV_TYPE_MASK

theorem headerKind_mem (isInstance : Bool) (type : DataType) :
    headerKind isInstance type ∈ kinds := by
  cases isInstance <;> cases type <;> decide

/-- The bytes of an id. -/
def idBytes (id : UInt16) : List UInt8 :=
  if 0xFF < id then BigEndian.ofNat 2 id.toNat else [id.toUInt8]

theorem toNat_idBytes (id : UInt16) : BigEndian.toNat (idBytes id) = id.toNat := by
  unfold idBytes
  split_ifs with h
  · exact BigEndian.toNat_ofNat id.toNat_lt
  · rw [UInt16.lt_iff_toNat_lt, show (0xFF : UInt16).toNat = 255 from rfl] at h
    rw [show [id.toUInt8] = [] ++ [id.toUInt8] from rfl, BigEndian.toNat_concat,
      UInt16.toNat_toUInt8]
    simp only [BigEndian.toNat_nil]
    omega

theorem sizeBytes_fits {dataLen : Nat} (h : dataLen ≤ 0xFFFFFF) :
    sizeBytes dataLen < 4 ∧ (sizeBytes dataLen = 0 → dataLen < 8) ∧
      (sizeBytes dataLen ≠ 0 → dataLen < 256 ^ sizeBytes dataLen) := by
  refine ⟨?_, fun hz => ?_, fun hz => ?_⟩
  · unfold sizeBytes
    split_ifs <;> omega
  · unfold sizeBytes at hz
    split_ifs at hz
    omega
  · unfold sizeBytes at hz ⊢
    split_ifs at hz ⊢ <;> omega

theorem prvCreateHeader_eq (isInstance : Bool) (type : DataType) (id : UInt16) (dataLen : Nat) :
    prvCreateHeader isInstance type id dataLen =
      firstByte (headerKind isInstance type) (0xFF < id) (sizeBytes dataLen) dataLen ::
        (idBytes id ++ BigEndian.ofNat (sizeBytes dataLen) dataLen) := by
  unfold prvCreateHeader sizeBytes firstByte headerKind idBytes
  simp only [decide_eq_true_eq]
  split_ifs <;> simp_all [BigEndian.ofNat]

theorem length_idBytes (id : UInt16) :
    (idBytes id).length = if 0xFF < id then 2 else 1 := by
  unfold idBytes
  split_ifs
  · exact BigEndian.length_ofNat 2 _
  · rfl

/-- A header takes the length that is counted for it. -/
theorem length_header (isInstance : Bool) (type : DataType) (id : UInt16) (dataLen : Nat) :
    (prvCreateHeader isInstance type id dataLen).length = prvGetHeaderLength id dataLen := by
  rw [prvCreateHeader_eq, List.length_cons, List.length_append, length_idBytes,
    BigEndian.length_ofNat, prvGetHeaderLength, sizeBytes]
  split_ifs <;> omega

/-- What stands behind a first byte is read as it says. -/
theorem decodeTLV_parts {b : UInt8} {ids lens rest : List UInt8}
    (hids : ids.length = 1 ∨ ids.length = 2)
    (hwide : b &&& 0x20 = 0x20 ↔ ids.length = 2)
    (hsize : ((b &&& 0x18) >>> 3).toNat = lens.length) :
    decodeTLV (b :: (ids ++ lens) ++ rest) =
      let dataLen := if lens = [] then (b &&& 0x07).toNat else BigEndian.toNat lens
      if rest.length < dataLen then none
      else
        some (prvGetDataType (b &&& PRV_TLV_TYPE_MASK), UInt16.ofNat (BigEndian.toNat ids),
          1 + ids.length + lens.length, dataLen) := by
  have hlen : (b :: (ids ++ lens) ++ rest).length =
      1 + ids.length + lens.length + rest.length := by
    simp only [List.length_append, List.length_cons]
    omega
  have hfirst : (b :: (ids ++ lens) ++ rest).getD 0 0 = b := rfl
  have hread (i n : Nat) (pre mid post : List UInt8)
      (hsplit : b :: (ids ++ lens) ++ rest = pre ++ (mid ++ post)) (hi : pre.length = i)
      (hn : mid.length = n) : ((b :: (ids ++ lens) ++ rest).drop i).take n = mid := by
    rw [hsplit, ← hi, List.drop_left, ← hn, List.take_left]
  have hidread (n : Nat) (hn : ids.length = n) :
      ((b :: (ids ++ lens) ++ rest).drop 1).take n = ids :=
    hread 1 n [b] ids (lens ++ rest) (by simp) rfl hn
  have hlensread (n : Nat) (hn : 1 + ids.length = n) :
      ((b :: (ids ++ lens) ++ rest).drop n).take lens.length = lens :=
    hread n _ (b :: ids) lens rest (by simp) (by simp only [List.length_cons]; omega) rfl
  have hnil : lens = [] ↔ lens.length = 0 := List.length_eq_zero_iff.symm
  unfold decodeTLV
  simp only [hlen, hfirst, hsize]
  rcases hids with hone | htwo
  · have hnarrow : ¬ b &&& 0x20 = 0x20 := fun h => by
      have := hwide.mp h
      omega
    rw [if_neg (by omega), if_neg (fun h => hnarrow h.1)]
    simp only [if_neg hnarrow, hidread 1 hone, hone]
    rw [if_neg (by omega), hlensread 2 (by omega)]
    simp only [hnil]
    split_ifs <;> first | rfl | omega
  · have hyes : b &&& 0x20 = 0x20 := hwide.mpr htwo
    rw [if_neg (by omega), if_neg (by omega)]
    simp only [if_pos hyes, hidread 2 htwo, htwo]
    rw [if_neg (by omega), hlensread 3 (by omega)]
    simp only [hnil]
    split_ifs <;> first | rfl | omega

/-- A header is read back. -/
theorem decodeTLV_header (isInstance : Bool) (type : DataType) (id : UInt16) {dataLen : Nat}
    (h : dataLen ≤ 0xFFFFFF) (rest : List UInt8) :
    decodeTLV (prvCreateHeader isInstance type id dataLen ++ rest) =
      if rest.length < dataLen then none
      else
        some (prvGetDataType (headerKind isInstance type), id, prvGetHeaderLength id dataLen,
          dataLen) := by
  obtain ⟨hfour, hsmall, hfits⟩ := sizeBytes_fits h
  have hlens := BigEndian.length_ofNat (sizeBytes dataLen) dataLen
  have hheader := length_header isInstance type id dataLen
  rw [prvCreateHeader_eq, List.length_cons, List.length_append] at hheader
  -- the first byte does not depend on a length that has bytes of its own
  have hfirst : ∃ l < 8,
      firstByte (headerKind isInstance type) (0xFF < id) (sizeBytes dataLen) dataLen =
      firstByte (headerKind isInstance type) (0xFF < id) (sizeBytes dataLen) l ∧
        (sizeBytes dataLen = 0 → l = dataLen) := by
    by_cases hz : sizeBytes dataLen = 0
    · exact ⟨dataLen, hsmall hz, rfl, fun _ => rfl⟩
    · refine ⟨0, by omega, ?_, fun hz' => absurd hz' hz⟩
      simp only [firstByte, if_neg hz]
  obtain ⟨l, hl, hbyte, hlen⟩ := hfirst
  obtain ⟨hkind, hwide, hsize, hlow⟩ := firstByte_parts _ (headerKind_mem isInstance type)
    (0xFF < id) _ hfour l hl
  rw [← hbyte] at hkind hwide hsize hlow
  have hids := length_idBytes id
  rw [prvCreateHeader_eq, decodeTLV_parts (by rw [hids]; split_ifs <;> simp)
    (by rw [hwide, hids, decide_eq_true_eq]; split_ifs with hi <;> simp [hi])
    (by rw [hsize, hlens])]
  have hdata : (if BigEndian.ofNat (sizeBytes dataLen) dataLen = [] then
      (firstByte (headerKind isInstance type) (0xFF < id) (sizeBytes dataLen) dataLen &&& 0x07).toNat
      else BigEndian.toNat (BigEndian.ofNat (sizeBytes dataLen) dataLen)) = dataLen := by
    by_cases hz : sizeBytes dataLen = 0
    · rw [if_pos (by rw [hz]; rfl), hlow hz, hlen hz]
    · rw [if_neg (fun hnil => hz (by rw [← hlens, hnil]; rfl)), BigEndian.toNat_ofNat (hfits hz)]
  simp only [hdata, hkind, toNat_idBytes, UInt16.ofNat_toNat]
  have hcount : 1 + (idBytes id).length + (BigEndian.ofNat (sizeBytes dataLen) dataLen).length =
      prvGetHeaderLength id dataLen := by omega
  rw [hcount]

/-! ### The buffer is filled -/

theorem length_prvEncodeFloat (data : UInt64) :
    (prvEncodeFloat data).length = if BeyondFloat data then 8 else 4 := by
  rw [prvEncodeFloat]
  split_ifs <;> exact BigEndian.length_ofNat _ _

/-- A value takes the bytes that are counted for it. -/
theorem LeafValue.dataLen_eq (value : LeafValue) : value.dataLen = value.bytes.map List.length := by
  cases value with
  | float value => rw [dataLen, bytes, Option.map_some, length_prvEncodeFloat]
  | _ => rfl

theorem nodeLength_leaf (id : UInt16) (value : LeafValue) :
    nodeLength (.leaf id value) =
      value.bytes.map fun bs => prvGetHeaderLength id bs.length + bs.length := by
  rw [nodeLength, value.dataLen_eq, Option.map_map]
  rfl

theorem nodeLength_composite {type : Composite} (h : type ≠ .object) (id : UInt16)
    (children : List Lwm2mData) : nodeLength (.composite type id children) =
      (prvGetLength children).map fun n => prvGetHeaderLength id n + n := by
  cases type with
  | object => exact absurd rfl h
  | objectInstance => rw [nodeLength]; simp
  | multipleResource => rw [nodeLength]; simp

theorem nodeLength_object (id : UInt16) (children : List Lwm2mData) :
    nodeLength (.composite .object id children) = none := by rw [nodeLength]

/-- A node with children is a header and the children, serialized. -/
theorem nodeBytes_composite {type : Composite} (h : type ≠ .object) (isInstance : Bool)
    (id : UInt16) (children : List Lwm2mData) :
    nodeBytes isInstance (.composite type id children) =
      (tlvSerialize (isInstance || type = .multipleResource) children).map fun bs =>
        prvCreateHeader false type.type id bs.length ++ bs := by
  have hbytes : nodeBytes isInstance (.composite type id children) =
      match prvGetLength children with
      | none => none
      | some 0 => some (prvCreateHeader false type.type id 0)
      | some _ =>
        (serializeLoop (isInstance || type = .multipleResource) children).map fun bs =>
          prvCreateHeader false type.type id bs.length ++ bs := by
    cases type with
    | object => exact absurd rfl h
    | objectInstance => rw [nodeBytes]; simp
    | multipleResource => rw [nodeBytes]; simp
  rw [hbytes, tlvSerialize]
  cases hn : prvGetLength children with
  | none => rfl
  | some n => cases n <;> simp

mutual

/-- A node takes the bytes that are counted for it. -/
theorem nodeBytes_length (isInstance : Bool) : ∀ {d : Lwm2mData} {n : Nat},
    nodeLength d = some n → ∃ bs, nodeBytes isInstance d = some bs ∧ bs.length = n
  | .leaf id value, n, h => by
    rw [nodeLength_leaf] at h
    obtain ⟨bs, hbs, rfl⟩ := Option.map_eq_some_iff.mp h
    refine ⟨_, by rw [nodeBytes, hbs]; rfl, ?_⟩
    rw [List.length_append, length_header]
  | .composite type id children, n, h => by
    by_cases hobject : type = .object
    · rw [hobject, nodeLength_object] at h
      cases h
    · rw [nodeLength_composite hobject] at h
      obtain ⟨k, hk, rfl⟩ := Option.map_eq_some_iff.mp h
      obtain ⟨bs, hbs, hlen⟩ := tlvSerialize_length (isInstance || type = .multipleResource) hk
      refine ⟨_, by rw [nodeBytes_composite hobject, hbs]; rfl, ?_⟩
      rw [List.length_append, length_header, hlen]

/-- The loop writes as many bytes as are counted. -/
theorem serializeLoop_length (isInstance : Bool) : ∀ {data : List Lwm2mData} {n : Nat},
    prvGetLength data = some n → ∃ bs, serializeLoop isInstance data = some bs ∧ bs.length = n
  | [], n, h => by
    cases h
    exact ⟨[], rfl, rfl⟩
  | d :: data, n, h => by
    rw [prvGetLength] at h
    cases hd : nodeLength d with
    | none => simp [hd] at h
    | some k =>
      rw [hd] at h
      obtain ⟨m, hm, rfl⟩ := Option.map_eq_some_iff.mp h
      obtain ⟨bs, hbs, hlen⟩ := nodeBytes_length isInstance hd
      obtain ⟨rest, hrest, hrlen⟩ := serializeLoop_length isInstance hm
      refine ⟨bs ++ rest, by rw [serializeLoop, hbs, hrest]; rfl, ?_⟩
      rw [List.length_append, hlen, hrlen]

theorem tlvSerialize_length (isInstance : Bool) {data : List Lwm2mData} {n : Nat}
    (h : prvGetLength data = some n) :
    ∃ bs, tlvSerialize isInstance data = some bs ∧ bs.length = n := by
  obtain ⟨bs, hbs, hlen⟩ := serializeLoop_length isInstance h
  rw [tlvSerialize, h]
  cases n with
  | zero => exact ⟨[], rfl, rfl⟩
  | succ n => exact ⟨bs, hbs, hlen⟩

end

/-- Counted data is written by the loop. -/
theorem tlvSerialize_eq (isInstance : Bool) {data : List Lwm2mData} {n : Nat}
    (h : prvGetLength data = some n) :
    tlvSerialize isInstance data = serializeLoop isInstance data := by
  obtain ⟨bs, hbs, hlen⟩ := serializeLoop_length isInstance h
  rw [tlvSerialize, h, hbs]
  cases n with
  | zero =>
    obtain rfl := List.length_eq_zero_iff.mp hlen
    rfl
  | succ n => rfl

/-- **The buffer is filled.**  The bytes that are allocated for data are those that are written, and
there are none exactly where a type cannot be serialized. -/
theorem serialize_fills (isInstance : Bool) (data : List Lwm2mData) :
    (tlvSerialize isInstance data).map List.length = prvGetLength data := by
  cases h : prvGetLength data with
  | none => simp [tlvSerialize, h]
  | some n =>
    obtain ⟨bs, hbs, hlen⟩ := tlvSerialize_length isInstance h
    rw [hbs, Option.map_some, hlen]

/-! ### Round trips -/

mutual

/-- Each node that can have children has some. -/
def nodeSolid : Lwm2mData → Bool
  | .leaf _ _ => true
  | .composite _ _ children => !children.isEmpty && solid children

def solid : List Lwm2mData → Bool
  | [] => true
  | d :: data => nodeSolid d && solid data

end

mutual

/-- What the receiver has of a node: the bytes of each value. -/
def received : Lwm2mData → Lwm2mData
  | .leaf id value => .leaf id (.opaqueBytes (value.bytes.getD []))
  | .composite type id children => .composite type id (receivedAll children)

def receivedAll : List Lwm2mData → List Lwm2mData
  | [] => []
  | d :: data => received d :: receivedAll data

end

theorem receivedAll_eq_map (data : List Lwm2mData) : receivedAll data = data.map received := by
  induction data with
  | nil => rfl
  | cons d data ih => rw [receivedAll, ih, List.map_cons]

/-- A value is a resource. -/
theorem leaf_kind (isInstance : Bool) {value : LeafValue} {bs : List UInt8}
    (h : value.bytes = some bs) :
    prvGetDataType (headerKind isInstance value.type) = .opaqueBytes := by
  cases value with
  | undefined => cases h
  | _ => cases isInstance <;> (simp only [LeafValue.type]; decide)

theorem composite_kind {type : Composite} (h : type ≠ .object) :
    prvGetDataType (headerKind false type.type) = type.type := by
  cases type with
  | object => exact absurd rfl h
  | objectInstance => decide
  | multipleResource => decide

theorem parsedNode_composite {type : Composite} (h : type ≠ .object) (id : UInt16)
    (data : List UInt8) {children : List Lwm2mData} (hne : children ≠ []) :
    parsedNode type.type id data (some children) = some (.composite type id children) := by
  cases children with
  | nil => exact absurd rfl hne
  | cons c children =>
    cases type with
    | object => exact absurd rfl h
    | _ => rfl

theorem decodeTLV_nil : decodeTLV [] = none := rfl

theorem parseLoop_none {n : Nat} {t : List UInt8} (h : decodeTLV t = none) :
    parseLoop n t = some [] := by
  cases n with
  | zero => rfl
  | succ n => rw [parseLoop, h]

/-- A header and its data are parsed, whatever follows. -/
theorem decodeTLV_record (isInstance : Bool) (type : DataType) (id : UInt16) {data : List UInt8}
    (h : data.length ≤ 0xFFFFFF) (t : List UInt8) :
    decodeTLV (prvCreateHeader isInstance type id data.length ++ data ++ t) =
        some (prvGetDataType (headerKind isInstance type), id, prvGetHeaderLength id data.length,
          data.length) ∧
      ((prvCreateHeader isInstance type id data.length ++ data ++ t).drop
        (prvGetHeaderLength id data.length)).take data.length = data := by
  have hlen := length_header isInstance type id data.length
  constructor
  · rw [List.append_assoc, decodeTLV_header isInstance type id h,
      if_neg (by rw [List.length_append]; omega)]
  · rw [List.append_assoc, ← hlen, List.drop_left, List.take_left]

mutual

/-- A serialized node is parsed again. -/
theorem node_parses (isInstance : Bool) : ∀ {d : Lwm2mData} {bs : List UInt8},
    nodeBytes isInstance d = some bs → nodeSolid d = true → bs.length ≤ 0xFFFFFF →
    ∀ (t : List UInt8) {n : Nat}, bs.length ≤ n + 2 →
      ∃ type id i len, decodeTLV (bs ++ t) = some (type, id, i, len) ∧ i + len = bs.length ∧
        2 ≤ i ∧
        parsedNode type id (((bs ++ t).drop i).take len)
          (parseLoop n (((bs ++ t).drop i).take len)) = some (received d)
  | .leaf id value, bs, h, _, hsize, t, n, _ => by
    rw [nodeBytes] at h
    obtain ⟨data, hdata, rfl⟩ := Option.map_eq_some_iff.mp h
    rw [List.length_append] at hsize
    obtain ⟨hdecode, hslice⟩ := decodeTLV_record isInstance value.type id
      (show data.length ≤ 0xFFFFFF by omega) t
    refine ⟨_, _, _, _, hdecode, ?_, ?_, ?_⟩
    · rw [List.length_append, length_header]
    · rw [prvGetHeaderLength]
      omega
    · rw [hslice, leaf_kind isInstance hdata, received, hdata]
      rfl
  | .composite type id children, bs, h, hsolid, hsize, t, n, hn => by
    by_cases hobject : type = .object
    · rw [hobject, nodeBytes] at h
      cases h
    · rw [nodeBytes_composite hobject] at h
      obtain ⟨data, hdata, rfl⟩ := Option.map_eq_some_iff.mp h
      rw [nodeSolid, Bool.and_eq_true, Bool.not_eq_true', List.isEmpty_eq_false_iff] at hsolid
      have hlen := length_header false type.type id data.length
      have htwo : 2 ≤ prvGetHeaderLength id data.length := by
        rw [prvGetHeaderLength]
        omega
      rw [List.length_append] at hsize hn
      obtain ⟨hdecode, hslice⟩ := decodeTLV_record false type.type id
        (show data.length ≤ 0xFFFFFF by omega) t
      refine ⟨_, _, _, _, hdecode, ?_, htwo, ?_⟩
      · rw [List.length_append, hlen]
      · have hcounted : ∃ k, prvGetLength children = some k := by
          cases hk : prvGetLength children with
          | none => simp [tlvSerialize, hk] at hdata
          | some k => exact ⟨k, rfl⟩
        obtain ⟨k, hk⟩ := hcounted
        rw [tlvSerialize_eq _ hk] at hdata
        have hparse := loop_parses _ hdata hsolid.2 (by omega) decodeTLV_nil (n := n)
          (by rw [List.append_nil]; omega)
        rw [List.append_nil] at hparse
        have hne : receivedAll children ≠ [] := by
          rw [receivedAll_eq_map, Ne, List.map_eq_nil_iff]
          exact hsolid.1
        rw [hslice, hparse, composite_kind hobject, parsedNode_composite hobject id data hne,
          received]

/-- What the loop writes is parsed again, up to what no node starts. -/
theorem loop_parses (isInstance : Bool) : ∀ {data : List Lwm2mData} {bs : List UInt8},
    serializeLoop isInstance data = some bs → solid data = true → bs.length ≤ 0xFFFFFF →
    ∀ {t : List UInt8}, decodeTLV t = none → ∀ {n : Nat}, (bs ++ t).length ≤ n →
      parseLoop n (bs ++ t) = some (receivedAll data)
  | [], bs, h, _, _, t, ht, n, _ => by
    cases h
    exact parseLoop_none ht
  | d :: data, bs, h, hsolid, hsize, t, ht, n, hn => by
    rw [serializeLoop] at h
    cases hd : nodeBytes isInstance d with
    | none => simp [hd] at h
    | some first =>
      rw [hd] at h
      obtain ⟨rest, hrest, rfl⟩ := Option.map_eq_some_iff.mp h
      rw [solid, Bool.and_eq_true] at hsolid
      rw [List.length_append] at hsize
      rw [List.append_assoc, List.length_append] at hn
      have hbound := hn
      rw [List.length_append] at hbound
      rw [List.append_assoc]
      cases n with
      | zero =>
        obtain ⟨_, _, i, len, -, hlen, htwo, -⟩ :=
          node_parses isInstance hd hsolid.1 (by omega) (rest ++ t) (n := 0) (by omega)
        omega
      | succ n =>
        obtain ⟨type, id, i, len, hdecode, hlen, htwo, hnode⟩ :=
          node_parses isInstance hd hsolid.1 (by omega) (rest ++ t) (n := n) (by omega)
        have hloop := loop_parses isInstance hrest hsolid.2 (by omega) ht (n := n)
          (by rw [List.length_append]; omega)
        rw [parseLoop, hdecode]
        simp only
        rw [hnode, hlen, List.drop_left]
        simp only
        rw [hloop, receivedAll]
        rfl

end

/-- **What is serialized is parsed again.**  Each value arrives as its bytes, and what no node starts
may follow; a node without children is not parsed. -/
theorem parse_serialize {isInstance : Bool} {data : List Lwm2mData} {bs t : List UInt8}
    (h : tlvSerialize isInstance data = some bs) (hsolid : solid data = true)
    (hsize : bs.length ≤ 0xFFFFFF) (ht : decodeTLV t = none) :
    tlvParse (bs ++ t) = data.map received := by
  have hcounted : ∃ k, prvGetLength data = some k := by
    cases hk : prvGetLength data with
    | none => simp [tlvSerialize, hk] at h
    | some k => exact ⟨k, rfl⟩
  obtain ⟨k, hk⟩ := hcounted
  rw [tlvSerialize_eq _ hk] at h
  rw [tlvParse, loop_parses isInstance h hsolid hsize ht (le_refl _), receivedAll_eq_map]
  rfl

/-- An object instance with an integer, the double 1.5 and a multiple resource, then the first byte of
a header. -/
theorem parse_serialize_instance :
    tlvParse ([0x08, 3, 16, 0xC2, 1, 1, 44, 0xC4, 2, 0x3F, 0xC0, 0, 0, 0xA3, 1, 44, 0x41, 0, 65] ++
        [0xC1]) =
      [.composite .objectInstance 3 [.leaf 1 (.opaqueBytes [1, 44]),
        .leaf 2 (.opaqueBytes [0x3F, 0xC0, 0, 0]),
        .composite .multipleResource 300 [.leaf 0 (.opaqueBytes [65])]]] :=
  @parse_serialize false
    [.composite .objectInstance 3 [.leaf 1 (.integer 300), .leaf 2 (.float 0x3FF8000000000000),
      .composite .multipleResource 300 [.leaf 0 (.string [65])]]] _ _ (by rfl) (by rfl) (by decide)
    (by rfl)

/-! ### What the decoders read -/

theorem decodeInt_bytes {n : Nat} (hn : n = 1 ∨ n = 2 ∨ n = 4 ∨ n = 8) {v : Int}
    (hlo : -(256 ^ n : Nat) ≤ 2 * v) (hhi : 2 * v < (256 ^ n : Nat)) :
    dataDecodeInt (.opaqueBytes (BigEndian.ofInt n v)) = some v := by
  rw [dataDecodeInt, BigEndian.length_ofInt, if_pos hn, BigEndian.toInt_ofInt hlo hhi]

/-- The bytes of an integer are read as the integer. -/
theorem decodeInt_prvEncodeInt (data : Int64) :
    dataDecodeInt (.opaqueBytes (prvEncodeInt data)) = some data.toInt := by
  have hlo := data.le_toInt
  have hhi := data.toInt_lt
  unfold prvEncodeInt
  dsimp only
  split_ifs with h1 h2 h4
  · exact decodeInt_bytes (.inl rfl) (by omega) (by omega)
  · exact decodeInt_bytes (.inr (.inl rfl)) (by omega) (by omega)
  · exact decodeInt_bytes (.inr (.inr (.inl rfl))) (by omega) (by omega)
  · exact decodeInt_bytes (.inr (.inr (.inr rfl))) (by omega) (by omega)

/-- The text of an integer is read as the integer. -/
theorem decodeInt_textSerialize (floatToText : UInt64 → Option (List UInt8))
    (stack : Nat → UInt8) {data : Int64} (hmin : data ≠ Int64.minValue) :
    ∃ text, prvTextSerialize floatToText stack (.integer data) = some text ∧
      dataDecodeInt (.string text) = some data.toInt := by
  obtain ⟨s, hs, htake⟩ := @intToText_fits data hmin ((List.range PRV_STR_LENGTH).map stack)
    (by
      have := length_numeral_int data
      rw [List.length_map, List.length_range, PRV_STR_LENGTH]
      omega)
  refine ⟨intText data, ?_, textToInt_intText hmin⟩
  rw [prvTextSerialize, hs]
  simp only [htake]

/-- The text of opaque data is its encoding in base 64. -/
theorem textSerialize_opaque (floatToText : UInt64 → Option (List UInt8)) (stack : Nat → UInt8)
    (data : List UInt8) :
    ∃ text, prvTextSerialize floatToText stack (.opaqueBytes data) =
        some (text.map fun c => UInt8.ofNat c.toNat) ∧ Base64.Encodes text data := by
  obtain ⟨text, htext, hencodes, -⟩ := base64Encode_encodes data
  refine ⟨text, ?_, hencodes⟩
  rw [prvTextSerialize, htext, Option.map_some]

/-- **Values arrive.**  An integer and a boolean are decoded as themselves from what TLV has of them,
and from their text, but for the least integer; the text of opaque data is its encoding in base
64. -/
theorem values_arrive (floatToText : UInt64 → Option (List UInt8)) (stack : Nat → UInt8) :
    (∀ v : Int64, dataDecodeInt (.opaqueBytes ((LeafValue.integer v).bytes.getD [])) =
        some v.toInt) ∧
      (∀ v : Int64, v ≠ Int64.minValue → ∃ text,
        prvTextSerialize floatToText stack (.integer v) = some text ∧
          dataDecodeInt (.string text) = some v.toInt) ∧
      (∀ b : Bool, dataDecodeBool (.opaqueBytes ((LeafValue.boolean b).bytes.getD [])) = some b ∧
        ∃ text, prvTextSerialize floatToText stack (.boolean b) = some text ∧
          dataDecodeBool (.string text) = some b) ∧
      ∀ data, ∃ text, prvTextSerialize floatToText stack (.opaqueBytes data) =
        some (text.map fun c => UInt8.ofNat c.toNat) ∧ Base64.Encodes text data := by
  refine ⟨decodeInt_prvEncodeInt, fun v => decodeInt_textSerialize floatToText stack, fun b => ?_,
    textSerialize_opaque floatToText stack⟩
  cases b
  · exact ⟨rfl, _, rfl, rfl⟩
  · exact ⟨rfl, _, rfl, rfl⟩

/-! ### What is parsed is serialized again -/

set_option maxRecDepth 4000 in
theorem size_lt (b : UInt8) : ((b &&& 0x18) >>> 3).toNat < 4 := by
  have hall : ∀ n < 256, ((UInt8.ofNat n &&& 0x18) >>> 3).toNat < 4 := by decide
  exact forall_byte (P := fun b => ((b &&& 0x18) >>> 3).toNat < 4) hall b

set_option maxRecDepth 4000 in
theorem low_lt (b : UInt8) : (b &&& 0x07).toNat < 8 := by
  have hall : ∀ n < 256, (UInt8.ofNat n &&& 0x07).toNat < 8 := by decide
  exact forall_byte (P := fun b => (b &&& 0x07).toNat < 8) hall b

theorem toNat_slice_lt (buffer : List UInt8) (i n : Nat) :
    BigEndian.toNat ((buffer.drop i).take n) < 256 ^ n :=
  Nat.lt_of_lt_of_le (BigEndian.toNat_lt _)
    (Nat.pow_le_pow_right (by decide) (by rw [List.length_take]; omega))

/-- A length field that holds the length is long enough for a header. -/
theorem headerLength_le {id : UInt16} {wide : Prop} [Decidable wide] {size len : Nat}
    (hid : ¬wide → id.toNat < 256) (hfour : size < 4) (hlow : size = 0 → len < 8)
    (hlen : size ≠ 0 → len < 256 ^ size) :
    prvGetHeaderLength id len ≤ (if wide then 3 else 2) + size := by
  have hids : (if 0xFF < id then 1 else 0) ≤ if wide then 1 else 0 := by
    by_cases hw : wide
    · rw [if_pos hw]
      split_ifs <;> omega
    · rw [if_neg hw, if_neg]
      rw [UInt16.lt_iff_toNat_lt, show (0xFF : UInt16).toNat = 255 from rfl]
      have := hid hw
      omega
  have hlens : (if 0xFFFF < len then 3 else if 0xFF < len then 2 else if 7 < len then 1 else 0) ≤
      size := by
    rcases Nat.eq_zero_or_pos size with rfl | hpos
    · have := hlow rfl
      split_ifs <;> omega
    · have hlt := hlen (by omega)
      have hcases : size = 1 ∨ size = 2 ∨ size = 3 := by omega
      rcases hcases with rfl | rfl | rfl <;> split_ifs <;> omega
  rw [prvGetHeaderLength]
  split_ifs at * <;> omega

/-- A node that is found lies in the buffer, and its header is no shorter than it has to be. -/
theorem decodeTLV_bounds {buffer : List UInt8} {type : DataType} {id : UInt16} {i len : Nat}
    (h : decodeTLV buffer = some (type, id, i, len)) :
    i + len ≤ buffer.length ∧ prvGetHeaderLength id len ≤ i := by
  unfold decodeTLV at h
  dsimp only at h
  by_cases hshort : buffer.length < 2
  · rw [if_pos hshort] at h
    cases h
  rw [if_neg hshort] at h
  by_cases hwide : buffer.getD 0 0 &&& 0x20 = 0x20 ∧ buffer.length < 3
  · rw [if_pos hwide] at h
    cases h
  rw [if_neg hwide] at h
  generalize hsize : ((buffer.getD 0 0 &&& 0x18) >>> 3).toNat = size at h
  generalize hindex : (if buffer.getD 0 0 &&& 0x20 = 0x20 then 3 else 2) = index at h
  generalize hlen : (if size = 0 then (buffer.getD 0 0 &&& 0x07).toNat
    else BigEndian.toNat ((buffer.drop index).take size)) = dataLen at h
  split at h
  · cases h
  split at h
  · cases h
  rename_i hdata
  rw [Option.some.injEq, Prod.mk.injEq, Prod.mk.injEq, Prod.mk.injEq] at h
  obtain ⟨-, rfl, rfl, rfl⟩ := h
  refine ⟨Nat.not_lt.mp hdata, ?_⟩
  rw [← hindex]
  refine headerLength_le (fun hw => ?_) (hsize ▸ size_lt _) (fun hz => ?_) (fun hz => ?_)
  · have hlt := toNat_slice_lt buffer 1 1
    rw [if_neg hw, UInt16.toNat_ofNat']
    omega
  · rw [← hlen, if_pos hz]
    exact low_lt _
  · rw [← hlen, if_neg hz]
    exact toNat_slice_lt buffer _ _

theorem headerLength_mono (id : UInt16) {m n : Nat} (h : m ≤ n) :
    prvGetHeaderLength id m ≤ prvGetHeaderLength id n := by
  unfold prvGetHeaderLength
  split_ifs <;> omega

/-- A node that the parser makes. -/
theorem parsedNode_cases {type : DataType} {id : UInt16} {data : List UInt8}
    {children : Option (List Lwm2mData)} {node : Lwm2mData}
    (h : parsedNode type id data children = some node) :
    node = .leaf id (.opaqueBytes data) ∨
      ∃ composite cs, composite ≠ .object ∧ children = some cs ∧ cs ≠ [] ∧
        node = .composite composite id cs := by
  cases type with
  | objectInstance =>
    rcases children with _ | _ | ⟨c, cs⟩
    · cases h
    · cases h
    · exact .inr ⟨.objectInstance, c :: cs, by decide, rfl, by simp, (Option.some.inj h).symm⟩
  | multipleResource =>
    rcases children with _ | _ | ⟨c, cs⟩
    · cases h
    · cases h
    · exact .inr ⟨.multipleResource, c :: cs, by decide, rfl, by simp, (Option.some.inj h).symm⟩
  | _ => exact .inl (Option.some.inj h).symm

/-- What the loop makes can be serialized in what it has read, and would be received as it is. -/
structure Canonical (data : List Lwm2mData) (size : Nat) : Prop where
  solid : solid data = true
  received : receivedAll data = data
  counted : ∃ n, prvGetLength data = some n ∧ n ≤ size

theorem parseLoop_canonical : ∀ {n : Nat} {buffer : List UInt8} {data : List Lwm2mData},
    parseLoop n buffer = some data → Canonical data buffer.length
  | 0, buffer, data, h => by
    cases h
    exact ⟨rfl, rfl, 0, rfl, Nat.zero_le _⟩
  | n + 1, buffer, data, h => by
    rw [parseLoop] at h
    cases hdecode : decodeTLV buffer with
    | none =>
      rw [hdecode] at h
      cases h
      exact ⟨rfl, rfl, 0, rfl, Nat.zero_le _⟩
    | some found =>
      obtain ⟨type, id, i, len⟩ := found
      rw [hdecode] at h
      dsimp only at h
      cases hnode : parsedNode type id ((buffer.drop i).take len)
          (parseLoop n ((buffer.drop i).take len)) with
      | none =>
        rw [hnode] at h
        cases h
      | some node =>
        rw [hnode] at h
        obtain ⟨rest, hrest, rfl⟩ := Option.map_eq_some_iff.mp h
        obtain ⟨hsolid, hreceived, m, hm, hmle⟩ := parseLoop_canonical hrest
        obtain ⟨hfits, hheader⟩ := decodeTLV_bounds hdecode
        rw [List.length_drop] at hmle
        have hdata : ((buffer.drop i).take len).length = len := by
          rw [List.length_take, List.length_drop]
          omega
        -- what the node itself takes
        have hown : nodeSolid node = true ∧ received node = node ∧
            ∃ k, nodeLength node = some k ∧ k ≤ i + len := by
          rcases parsedNode_cases hnode with rfl | ⟨composite, cs, hobject, hcs, hne, rfl⟩
          · refine ⟨rfl, rfl, prvGetHeaderLength id len + len, ?_, by omega⟩
            rw [nodeLength_leaf, LeafValue.bytes, Option.map_some, hdata]
          · obtain ⟨hsolid, hreceived, k, hk, hkle⟩ := parseLoop_canonical hcs
            rw [hdata] at hkle
            have hmono := headerLength_mono id hkle
            refine ⟨?_, ?_, prvGetHeaderLength id k + k,
              by rw [nodeLength_composite hobject, hk]; rfl,
              by omega⟩
            · rw [nodeSolid, Bool.and_eq_true, Bool.not_eq_true', List.isEmpty_eq_false_iff]
              exact ⟨hne, hsolid⟩
            · rw [received, hreceived]
        obtain ⟨hsolid', hreceived', k, hk, hkle⟩ := hown
        refine ⟨?_, ?_, k + m, by rw [prvGetLength, hk, hm]; rfl, by omega⟩
        · rw [solid, Bool.and_eq_true]
          exact ⟨hsolid', hsolid⟩
        · rw [receivedAll, hreceived', hreceived]

/-- **What is parsed is serialized again.**  It takes no more bytes than it was parsed from, and is
parsed the same. -/
theorem parse_canonical (isInstance : Bool) {buffer : List UInt8}
    (hsize : buffer.length ≤ 0xFFFFFF) :
    ∃ bs, tlvSerialize isInstance (tlvParse buffer) = some bs ∧ bs.length ≤ buffer.length ∧
      tlvParse bs = tlvParse buffer := by
  have hcanonical : Canonical (tlvParse buffer) buffer.length := by
    rw [tlvParse]
    cases h : parseLoop buffer.length buffer with
    | none => exact ⟨rfl, rfl, 0, rfl, Nat.zero_le _⟩
    | some data => exact parseLoop_canonical h
  obtain ⟨hsolid, hreceived, n, hn, hnle⟩ := hcanonical
  obtain ⟨bs, hbs, hlen⟩ := tlvSerialize_length isInstance hn
  have hparse := parse_serialize hbs hsolid (by omega) decodeTLV_nil
  rw [List.append_nil, ← receivedAll_eq_map, hreceived] at hparse
  exact ⟨bs, hbs, by omega, hparse⟩

/-- A header with two bytes for a small id and a length field for a small length. -/
theorem parse_canonical_long :
    ∃ bs, tlvSerialize false (tlvParse [0xE8, 0, 5, 2, 1, 2]) = some bs ∧ bs.length ≤ 6 ∧
      tlvParse bs = tlvParse [0xE8, 0, 5, 2, 1, 2] :=
  parse_canonical false (by decide)

end XY1100.Lwm2m
