import Wpa.Radius.MsKeys

/-! What `radius_msg_add_mppe_keys` puts into a message and `radius_msg_get_ms_keys` finds there, and
that reading hidden attributes stays inside them. -/

namespace Wpa.RadiusMsg
open Lib Bytes

/-- The mask of the block behind `prev`. -/
def blockMask (md5 : Md5) (secret prev : Bytes) : Bytes := (md5.vector (secret ++ prev)).val

section Blocks
variable {md5 : Md5} {secret a plain z prev buf : Bytes} {n pos : ℕ} {first : Option Bytes}

@[simp] theorem length_blockMask (prev : Bytes) : (blockMask md5 secret prev).length = md5MacLen :=
  (md5.vector _).2

theorem chained_none {c : Bytes} (hbuf : buf = a ++ (c ++ z)) (hc : c.length = md5MacLen)
    (hpos : a.length + md5MacLen = pos) : chained none buf pos = some c := by
  have hoff : a.length = pos - md5MacLen := by omega
  have hroom : pos - md5MacLen + md5MacLen ≤ buf.length := by
    rw [hbuf, List.length_append, List.length_append, hc]
    omega
  rw [chained, readSlice_eq hroom, slice_part hbuf hoff hc]

/-- The blocks are enciphered in place. -/
theorem encryptBlocks_eq (hbuf : buf = a ++ (plain ++ z)) (hpos : a.length = pos)
    (hplain : plain.length = md5MacLen * n) (hprev : chained first buf pos = some prev) :
    encryptBlocks md5 secret (md5MacLen * n) first pos buf =
      some (a ++ (encipher md5MacLen (blockMask md5 secret) n (blockMask md5 secret prev) plain ++
        z)) := by
  induction n generalizing a plain pos first prev buf with
  | zero =>
    rw [encryptBlocks, if_pos (Nat.mul_zero _), hbuf, List.length_eq_zero_iff.mp hplain]
    rfl
  | succ n ih =>
    have hlen : (plain.take md5MacLen).length = md5MacLen := length_take_block hplain
    have hmask : (plain.take md5MacLen).length = (blockMask md5 secret prev).length := by
      rw [hlen, length_blockMask]
    obtain ⟨c, hc⟩ : ∃ c, c = xor (plain.take md5MacLen) (blockMask md5 secret prev) := ⟨_, rfl⟩
    have hclen : c.length = md5MacLen := by rw [hc, length_xor hmask, length_blockMask]
    have hsplit : buf = a ++ (plain.take md5MacLen ++ (plain.drop md5MacLen ++ z)) := by
      rw [hbuf, ← List.append_assoc (plain.take md5MacLen), List.take_append_drop]
    have hroom : pos + md5MacLen ≤ buf.length := by
      rw [hsplit, List.length_append, List.length_append, hlen, hpos]
      omega
    have hzero : ¬ md5MacLen * (n + 1) = 0 := Nat.mul_ne_zero (by decide) (Nat.succ_ne_zero n)
    have hleft : md5MacLen * (n + 1) - md5MacLen = md5MacLen * n := by
      rw [Nat.mul_succ, Nat.add_sub_cancel]
    have hstored : buf.store pos c = some (a ++ (c ++ (plain.drop md5MacLen ++ z))) :=
      store_part hsplit hpos (by rw [hlen, hclen])
    rw [encryptBlocks, if_neg hzero, hprev, readSlice_eq hroom, slice_part hsplit hpos hlen]
    simp only [Option.bind_eq_bind, Option.bind_some, hleft]
    rw [show (md5.vector (secret ++ prev)).val = blockMask md5 secret prev from rfl, ← hc, hstored,
      Option.bind_some, ih (List.append_assoc a c _).symm (by rw [List.length_append, hpos, hclen])
        (length_drop_block hplain) (chained_none rfl hclen (by rw [hpos])), encipher, ← hc,
      List.append_assoc, List.append_assoc]

/-- The blocks that stand in an attribute are deciphered. -/
theorem decryptBlocks_eq (hbuf : buf = a ++ (plain ++ z)) (hpos : a.length = pos)
    (hplain : plain.length = md5MacLen * n) (hprev : chained first buf pos = some prev) :
    decryptBlocks md5 secret buf (md5MacLen * n) first pos =
      some (decipher md5MacLen (blockMask md5 secret) n (blockMask md5 secret prev) plain) := by
  induction n generalizing a plain pos first prev with
  | zero => rw [decryptBlocks, if_pos (Nat.mul_zero _), decipher]
  | succ n ih =>
    have hlen : (plain.take md5MacLen).length = md5MacLen := length_take_block hplain
    have hsplit : buf = a ++ (plain.take md5MacLen ++ (plain.drop md5MacLen ++ z)) := by
      rw [hbuf, ← List.append_assoc (plain.take md5MacLen), List.take_append_drop]
    have hroom : pos + md5MacLen ≤ buf.length := by
      rw [hsplit, List.length_append, List.length_append, hlen, hpos]
      omega
    have hzero : ¬ md5MacLen * (n + 1) = 0 := Nat.mul_ne_zero (by decide) (Nat.succ_ne_zero n)
    have hleft : md5MacLen * (n + 1) - md5MacLen = md5MacLen * n := by
      rw [Nat.mul_succ, Nat.add_sub_cancel]
    have hrest := @ih (a ++ plain.take md5MacLen) (plain.drop md5MacLen) (plain.take md5MacLen)
      (pos + md5MacLen) none (hsplit.trans (List.append_assoc a _ _).symm)
      (by rw [List.length_append, hpos, hlen]) (length_drop_block hplain)
      (chained_none hsplit hlen (by rw [hpos]))
    rw [decryptBlocks, if_neg hzero, hprev, readSlice_eq hroom, slice_part hsplit hpos hlen]
    simp only [Option.bind_eq_bind, Option.bind_some, hleft, hrest]
    rfl

end Blocks

theorem and_high (hi lo : ℕ) (hhi : hi < 16) (hlo : lo < 16) : (16 * hi + lo) &&& 0xf0 = 16 * hi := by
  have hall : ∀ hi < 16, ∀ lo < 16, (16 * hi + lo) &&& 0xf0 = 16 * hi := by decide
  exact hall hi hhi lo hlo

/-- A key with its length octet is padded to whole blocks, which fit the room for it. -/
theorem encryptedLen_spec {k : ℕ} (h : k ≤ 223) :
    ∃ n, encryptedLen k = md5MacLen * n ∧ 1 + k ≤ md5MacLen * n ∧ md5MacLen * n ≤ k + 16 := by
  have hlow : (1 + k) &&& 0x0f = (1 + k) % 16 := Nat.and_two_pow_sub_one_eq_mod (1 + k) 4
  have hhigh := and_high ((1 + k) / 16) ((1 + k) % 16) (by omega) (Nat.mod_lt _ (by decide))
  rw [Nat.div_add_mod] at hhigh
  unfold encryptedLen md5MacLen
  simp only [hlow, hhigh]
  split
  · exact ⟨(1 + k) / 16 + 1, by omega, by omega, by omega⟩
  · exact ⟨(1 + k) / 16, by omega, by omega, by omega⟩

/-- A key with its length octet and the padding. -/
def paddedKey (key : Bytes) : Bytes :=
  UInt8.ofNat key.length :: (key ++ zeros (encryptedLen key.length - (1 + key.length)))

/-- What `encrypt_ms_key` makes of a key. -/
def hiddenKey (md5 : Md5) (secret : Bytes) (reqAuthenticator : Octets16) (salt key : Bytes) : Bytes :=
  encipher md5MacLen (blockMask md5 secret) (encryptedLen key.length / md5MacLen)
    (blockMask md5 secret (reqAuthenticator.val ++ salt)) (paddedKey key)

section Key
variable {md5 : Md5} {secret key a z buf : Bytes} {reqAuthenticator : Octets16} {salt : UInt16}
  {pos : ℕ}

theorem length_paddedKey (h : key.length ≤ 223) :
    (paddedKey key).length = encryptedLen key.length := by
  obtain ⟨n, hlen, hlow, -⟩ := encryptedLen_spec h
  rw [paddedKey, List.length_cons, List.length_append, zeros_length]
  omega

theorem length_hiddenKey (h : key.length ≤ 223) (salt : Bytes) :
    (hiddenKey md5 secret reqAuthenticator salt key).length = encryptedLen key.length := by
  obtain ⟨n, hlen, -, -⟩ := encryptedLen_spec h
  have hdiv : encryptedLen key.length / md5MacLen = n := by
    rw [hlen, Nat.mul_div_cancel_left n (by decide)]
  rw [hiddenKey, hdiv, length_encipher length_blockMask (length_blockMask _), hlen]
  rw [length_paddedKey h, hlen]

/-- The key is written into the room behind the header and enciphered there. -/
theorem encryptMsKey_eq (h : key.length ≤ 223) (hbuf : buf = a ++ z) (hpos : a.length = pos)
    (hz : key.length + 16 ≤ z.length) :
    encryptMsKey md5 key salt reqAuthenticator secret pos buf =
      some (a ++ (hiddenKey md5 secret reqAuthenticator (ofBeNat salt.toNat 2) key ++
        z.drop (encryptedLen key.length)), encryptedLen key.length) := by
  obtain ⟨n, hlen, hlow, hhigh⟩ := encryptedLen_spec h
  have hdiv : encryptedLen key.length / md5MacLen = n := by
    rw [hlen, Nat.mul_div_cancel_left n (by decide)]
  obtain ⟨pad, hpad⟩ : ∃ pad, encryptedLen key.length = 1 + key.length + pad :=
    ⟨encryptedLen key.length - (1 + key.length), by omega⟩
  have hzeros : zeros (encryptedLen key.length) = 0 :: (zeros key.length ++ zeros pad) := by
    rw [hpad, zeros, Nat.add_comm 1, Nat.succ_add, List.replicate_succ, List.replicate_add]
    rfl
  have hpadded : paddedKey key = UInt8.ofNat key.length :: (key ++ zeros pad) := by
    rw [paddedKey, hpad, Nat.add_sub_cancel_left]
  have hset := store_front hbuf hpos
    (show (zeros (encryptedLen key.length)).length ≤ z.length by rw [zeros_length]; omega)
  rw [zeros_length, hzeros] at hset
  have hfirst : (a ++ (0 :: (zeros key.length ++ zeros pad) ++ z.drop (encryptedLen key.length))).store
      pos [UInt8.ofNat key.length] = some (a ++ ([UInt8.ofNat key.length] ++
        (zeros key.length ++ zeros pad ++ z.drop (encryptedLen key.length)))) :=
    store_part (show _ = a ++ ([0] ++ _) from rfl) hpos rfl
  have hcopy : (a ++ ([UInt8.ofNat key.length] ++
      (zeros key.length ++ zeros pad ++ z.drop (encryptedLen key.length)))).store (pos + 1) key =
        some (a ++ [UInt8.ofNat key.length] ++
          (key ++ (zeros pad ++ z.drop (encryptedLen key.length)))) := by
    refine store_part ?_ ?_ (zeros_length key.length)
    · simp only [List.append_assoc]
    · rw [List.length_append, hpos]
      rfl
  have hblocks : encryptBlocks md5 secret (md5MacLen * n)
      (some (reqAuthenticator.val ++ ofBeNat salt.toNat 2)) pos
      (a ++ (paddedKey key ++ z.drop (encryptedLen key.length))) = _ :=
    encryptBlocks_eq rfl hpos (by rw [length_paddedKey h, hlen]) rfl
  rw [encryptMsKey, hzeros]
  simp only [hset, Option.bind_eq_bind, Option.bind_some, hfirst, hcopy]
  rw [hpadded, ← hlen] at hblocks
  have hsame : a ++ [UInt8.ofNat key.length] ++
      (key ++ (zeros pad ++ z.drop (encryptedLen key.length))) =
        a ++ (UInt8.ofNat key.length :: (key ++ zeros pad) ++ z.drop (encryptedLen key.length)) := by
    simp only [List.append_assoc, List.cons_append, List.nil_append]
  rw [hsame, hblocks, Option.bind_some, hiddenKey, hdiv, hpadded]
  rfl

/-- A hidden key is found again behind its salt. -/
theorem decryptMsKey_eq (h : key.length ≤ 223) (hne : key ≠ []) {salt : Bytes}
    (hsalt : salt.length = 2) :
    decryptMsKey md5 (salt ++ hiddenKey md5 secret reqAuthenticator salt key)
      reqAuthenticator.val secret = some (some key) := by
  obtain ⟨n, hlen, hlow, -⟩ := encryptedLen_spec h
  have hpos := List.length_pos_iff.mpr hne
  have hdiv : encryptedLen key.length / md5MacLen = n := by
    rw [hlen, Nat.mul_div_cancel_left n (by decide)]
  have hcipher : (hiddenKey md5 secret reqAuthenticator salt key).length = md5MacLen * n :=
    (length_hiddenKey h salt).trans hlen
  obtain ⟨buf, hbuf⟩ : ∃ buf, buf = salt ++ hiddenKey md5 secret reqAuthenticator salt key :=
    ⟨_, rfl⟩
  have hlength : buf.length = 2 + md5MacLen * n := by
    rw [hbuf, List.length_append, hsalt, hcipher]
  have hleft : buf.length - 2 = md5MacLen * n := by omega
  have hplain : decryptBlocks md5 secret buf (md5MacLen * n) (some (reqAuthenticator.val ++ salt)) 2 =
      some (paddedKey key) := by
    rw [decryptBlocks_eq (a := salt) (z := []) (by rw [List.append_nil]; exact hbuf) hsalt hcipher
      (show chained (some (reqAuthenticator.val ++ salt)) buf 2 = some _ from rfl), hiddenKey, hdiv,
      decipher_encipher length_blockMask (length_blockMask _) (by rw [length_paddedKey h, hlen])]
  have hoctet : (UInt8.ofNat key.length).toNat = key.length := by
    rw [UInt8.toNat_ofNat']
    omega
  have hsalted : buf.readSlice 0 2 = some salt := by
    rw [readSlice_eq (by omega)]
    exact congrArg some (slice_part (a := []) hbuf rfl hsalt)
  have hread : (paddedKey key).read8 0 = some key.length := congrArg some hoctet
  have hkey : (paddedKey key).readSlice 1 key.length = some key := by
    have hroom : 1 + key.length ≤ (paddedKey key).length := by rw [length_paddedKey h, hlen]; exact hlow
    rw [readSlice_eq hroom]
    exact congrArg some (slice_part (a := [UInt8.ofNat key.length]) rfl rfl rfl)
  have hshort : ¬ buf.length < 2 + 16 := by
    have hblocks : md5MacLen * n = 16 * n := rfl
    omega
  have hwhole : ¬ (md5MacLen * n) % 16 ≠ 0 := not_not.mpr (Nat.mul_mod_right 16 n)
  have hgood : ¬ (key.length = 0 ∨ key.length > md5MacLen * n - 1) := by omega
  rw [← hbuf, decryptMsKey, if_neg hshort]
  simp only [hleft, if_neg hwhole, hsalted, Option.bind_eq_bind, Option.bind_some, hplain, hread,
    if_neg hgood, hkey]
  rfl

end Key

/-- The value of an attribute with a hidden key. -/
def mppeValue (md5 : Md5) (secret : Bytes) (reqAuthenticator : Octets16) (vendorType : UInt8)
    (salt : UInt16) (key : Bytes) : Bytes :=
  ofBeNat vendorIdMicrosoft 4 ++ ([vendorType, UInt8.ofNat (4 + encryptedLen key.length)] ++
    (ofBeNat salt.toNat 2 ++
      hiddenKey md5 secret reqAuthenticator (ofBeNat salt.toNat 2) key))

section Build
variable {md5 : Md5} {secret key : Bytes} {reqAuthenticator : Octets16} {vendorType : UInt8}
  {salt : UInt16} {msg : Msg} {hdr : Bytes} {attrs : List Attr}

theorem length_mppeValue (h : key.length ≤ 223) :
    (mppeValue md5 secret reqAuthenticator vendorType salt key).length =
      8 + encryptedLen key.length := by
  rw [mppeValue, List.length_append, List.length_append, List.length_append, length_hiddenKey h,
    ofBeNat_length, ofBeNat_length]
  simp only [List.length_cons, List.length_nil]
  omega

theorem mppeValue_fits (h : key.length ≤ 223) :
    (mppeValue md5 secret reqAuthenticator vendorType salt key).length ≤ maxAttrLen := by
  obtain ⟨n, hlen, -, hhigh⟩ := encryptedLen_spec h
  rw [length_mppeValue h, hlen]
  unfold maxAttrLen attrHdrLen
  omega

/-- The attribute with a hidden key. -/
def mppeAttr (md5 : Md5) (secret : Bytes) (reqAuthenticator : Octets16) (vendorType : UInt8)
    (salt : UInt16) (key : Bytes) (h : key.length ≤ 223) : Attr :=
  ⟨attrVendorSpecific, mppeValue md5 secret reqAuthenticator vendorType salt key, mppeValue_fits h⟩

/-- The buffer is large enough, and what is added is the attribute with the hidden key. -/
theorem addMppeKey_holds (malloc : Malloc) (hmsg : Holds msg hdr attrs) (h : key.length ≤ 223) :
    ∃ msg' attr, addMppeKey md5 malloc msg reqAuthenticator secret vendorType salt key =
        some (msg', some attr) ∧
      Holds msg' hdr (attrs ++ [mppeAttr md5 secret reqAuthenticator vendorType salt key h]) := by
  obtain ⟨n, hlen, -, hhigh⟩ := encryptedLen_spec h
  obtain ⟨buf, hbuf⟩ : ∃ buf, buf = malloc.block (8 + key.length + 16) := ⟨_, rfl⟩
  have hlength : buf.length = 8 + key.length + 16 := by rw [hbuf, malloc.length_block]
  obtain ⟨id, hid⟩ : ∃ id, id = ofBeNat vendorIdMicrosoft 4 := ⟨_, rfl⟩
  have hidlen : id.length = 4 := by rw [hid, ofBeNat_length]
  obtain ⟨saltbuf, hsalt⟩ : ∃ saltbuf, saltbuf = ofBeNat salt.toNat 2 := ⟨_, rfl⟩
  have hsaltlen : saltbuf.length = 2 := by rw [hsalt, ofBeNat_length]
  obtain ⟨b, x, y, z, hsplit, hb⟩ : ∃ b x y z, buf = b ++ x :: y :: z ∧ b.length = 4 := by
    have htake : (buf.take 4).length = 4 := by
      rw [List.length_take]
      omega
    rcases hdrop : buf.drop 4 with _ | ⟨x, _ | ⟨y, z⟩⟩
    · have hnil := congrArg List.length hdrop
      simp [hlength] at hnil
    · have hone := congrArg List.length hdrop
      simp [hlength] at hone
    · exact ⟨buf.take 4, x, y, z, by rw [← hdrop, List.take_append_drop], htake⟩
  have hz : z.length = key.length + 18 := by
    rw [hsplit, List.length_append, List.length_cons, List.length_cons] at hlength
    omega
  obtain ⟨hidden, hhidden⟩ : ∃ hidden,
      hidden = hiddenKey md5 secret reqAuthenticator saltbuf key := ⟨_, rfl⟩
  -- the header, with any octet where the length will be
  have hvendor : buf.store 0 id = some (id ++ x :: y :: z) :=
    store_part (show buf = [] ++ (b ++ _) from hsplit) rfl (by rw [hb, hidlen])
  have htype : (id ++ x :: y :: z).store 4 [vendorType] = some (id ++ vendorType :: y :: z) :=
    store_part (show _ = id ++ ([x] ++ _) from rfl) hidlen rfl
  have hsalted : (id ++ vendorType :: y :: z).store 6 saltbuf =
      some (id ++ [vendorType, y] ++ (saltbuf ++ z.drop 2)) := by
    rw [← hsaltlen]
    refine store_front ?_ ?_ (by omega)
    · rw [List.append_assoc]
      rfl
    · rw [List.length_append, hidlen]
      rfl
  have hencrypt : encryptMsKey md5 key salt reqAuthenticator secret 8
      (id ++ [vendorType, y] ++ (saltbuf ++ z.drop 2)) =
        some (id ++ [vendorType, y] ++ saltbuf ++
          (hidden ++ (z.drop 2).drop (encryptedLen key.length)), encryptedLen key.length) := by
    rw [hhidden, hsalt]
    refine encryptMsKey_eq h (List.append_assoc ..).symm ?_ ?_
    · rw [List.length_append, List.length_append, hidlen, ofBeNat_length]
      rfl
    · rw [List.length_drop]
      omega
  obtain ⟨rest, hrest⟩ : ∃ rest, rest = (z.drop 2).drop (encryptedLen key.length) := ⟨_, rfl⟩
  have hlengthOctet : (id ++ [vendorType, y] ++ saltbuf ++ (hidden ++ rest)).store 5
      [UInt8.ofNat (8 + encryptedLen key.length - 4)] =
        some (id ++ [vendorType] ++
          ([UInt8.ofNat (8 + encryptedLen key.length - 4)] ++ (saltbuf ++ (hidden ++ rest)))) := by
    refine store_part ?_ ?_ (show [y].length = _ from rfl)
    · simp only [List.append_assoc, List.cons_append, List.nil_append]
    · rw [List.length_append, hidlen]
      rfl
  have hvalue : id ++ [vendorType] ++
      ([UInt8.ofNat (8 + encryptedLen key.length - 4)] ++ (saltbuf ++ (hidden ++ rest))) =
        mppeValue md5 secret reqAuthenticator vendorType salt key ++ rest := by
    have hoctet : 8 + encryptedLen key.length - 4 = 4 + encryptedLen key.length := by omega
    rw [mppeValue, ← hid, ← hsalt, ← hhidden, hoctet]
    simp only [List.append_assoc, List.cons_append, List.nil_append]
  have hread : (mppeValue md5 secret reqAuthenticator vendorType salt key ++ rest).readSlice 0
      (8 + encryptedLen key.length) =
        some (mppeValue md5 secret reqAuthenticator vendorType salt key) := by
    have hroom : 0 + (8 + encryptedLen key.length) ≤
        (mppeValue md5 secret reqAuthenticator vendorType salt key ++ rest).length := by
      rw [List.length_append, length_mppeValue h]
      omega
    rw [readSlice_eq hroom]
    exact congrArg some (slice_part (a := []) rfl rfl (length_mppeValue h))
  obtain ⟨msg', hadd, hholds⟩ := addAttr_holds hmsg
    (mppeAttr md5 secret reqAuthenticator vendorType salt key h)
  refine ⟨msg', msg.data.length, ?_, hholds⟩
  rw [addMppeKey]
  simp only [vendorHdrLen, ← hbuf, ← hid, hvendor, Option.bind_eq_bind, Option.bind_some, htype,
    ← hsalt, hsalted, hencrypt, ← hrest, hlengthOctet, hvalue, hread]
  exact hadd

end Build

section Find
variable {md5 : Md5} {secret key : Bytes} {reqAuthenticator : Octets16} {vendorType : UInt8}
  {salt : UInt16} {data : Bytes} {attrs : List Attr}

theorem getVendorAttr_eq {ps : List ℕ} (h : List.Forall₂ (At data) ps attrs) (vendor : ℕ)
    (subtype : UInt8) :
    getVendorAttr data vendor subtype ps =
      some ((attrs.map Attr.pair).findSome? (vendorAttr vendor subtype)) := by
  induction h with
  | nil => rfl
  | cons hat _ ih =>
    rename_i pos a ps attrs _
    rw [getVendorAttr, hat.readAttr, List.map_cons, List.findSome?_cons]
    simp only [Option.bind_eq_bind, Option.bind_some]
    cases vendorAttr vendor subtype a.pair with
    | none => exact ih
    | some payload => rfl

/-- The payload is found under its own subtype only. -/
theorem vendorAttr_mppeAttr (h : key.length ≤ 223) (subtype : UInt8) :
    vendorAttr vendorIdMicrosoft subtype
        (mppeAttr md5 secret reqAuthenticator vendorType salt key h).pair =
      if vendorType = subtype then
        some (ofBeNat salt.toNat 2 ++
          hiddenKey md5 secret reqAuthenticator (ofBeNat salt.toNat 2) key)
      else none := by
  obtain ⟨n, hlen, -, hhigh⟩ := encryptedLen_spec h
  obtain ⟨body, hbody⟩ : ∃ body, body = ofBeNat salt.toNat 2 ++
    hiddenKey md5 secret reqAuthenticator (ofBeNat salt.toNat 2) key := ⟨_, rfl⟩
  have hbodylen : body.length = 2 + encryptedLen key.length := by
    rw [hbody, List.length_append, ofBeNat_length, length_hiddenKey h]
  have hoctet : (UInt8.ofNat (4 + encryptedLen key.length)).toNat = 4 + encryptedLen key.length := by
    rw [UInt8.toNat_ofNat']
    omega
  obtain ⟨left, hleft⟩ : ∃ left : Bytes,
    left = vendorType :: UInt8.ofNat (4 + encryptedLen key.length) :: body := ⟨_, rfl⟩
  have hleftlen : left.length = 4 + encryptedLen key.length := by
    rw [hleft, List.length_cons, List.length_cons, hbodylen]
    omega
  have hvalue : (mppeAttr md5 secret reqAuthenticator vendorType salt key h).pair =
      (attrVendorSpecific, [0, 0, 1, 55] ++ left) := by
    rw [hleft, hbody]
    rfl
  have hfirst : left.byteAt 0 = vendorType.toNat := by rw [hleft]; rfl
  have hsecond : left.byteAt 1 = 4 + encryptedLen key.length := by
    rw [hleft]
    exact hoctet
  have hroom : ¬ left.length < vendorHdrLen := by
    unfold vendorHdrLen
    omega
  have hwhole : ¬ (left.byteAt 1 > left.length ∨ left.byteAt 1 < vendorHdrLen) := by
    unfold vendorHdrLen
    omega
  have hspecific : ¬ (attrVendorSpecific ≠ attrVendorSpecific ∨
      ([0, 0, 1, 55] ++ left).length < 4) := by
    rintro (hne | hshort)
    · exact hne rfl
    · rw [List.length_append] at hshort
      exact absurd hshort (by simp)
  have hvendor : ¬ be32 ([0, 0, 1, 55] ++ left) 0 ≠ vendorIdMicrosoft := by
    simp [be32, be16, byteAt, vendorIdMicrosoft]
  have hdrop : ([0, 0, 1, 55] ++ left).drop 4 = left := rfl
  rw [hvalue, vendorAttr, if_neg hspecific, if_neg hvendor, hdrop, vendorData, if_neg hroom,
    dif_neg hwhole, hfirst, ← hbody]
  by_cases hsub : vendorType = subtype
  · have hslice : left.slice vendorHdrLen (left.byteAt 1 - vendorHdrLen) = body := by
      rw [hsecond, hleft]
      refine List.take_of_length_le ?_
      have hbehind : (vendorType :: UInt8.ofNat (4 + encryptedLen key.length) :: body).drop
          vendorHdrLen = body := rfl
      rw [hbehind, hbodylen, vendorHdrLen]
      omega
    rw [if_pos hsub, if_neg (not_not.mpr (congrArg UInt8.toNat hsub)), hslice]
  · have hne : vendorType.toNat ≠ subtype.toNat := fun heq => hsub (UInt8.toNat_inj.mp heq)
    have hend : left.drop (left.byteAt 1) = [] := List.drop_eq_nil_of_le (by omega)
    rw [if_neg hsub, if_pos hne, hend, vendorData]
    rfl

end Find

/-- No attribute in the list says anything about a key. -/
def NoMsKeys (attrs : List Attr) : Prop :=
  ∀ a ∈ attrs, vendorAttr vendorIdMicrosoft vendorAttrMsMppeSendKey a.pair = none ∧
    vendorAttr vendorIdMicrosoft vendorAttrMsMppeRecvKey a.pair = none

section RoundTrip
variable {md5 : Md5} {secret sendKey recvKey : Bytes} {reqAuthenticator : Octets16} {salt : UInt16}
  {msg sentMsg : Msg} {hdr : Bytes} {before behind : List Attr}

theorem findSome?_before {attrs : List Attr} {f : UInt8 × Bytes → Option Bytes}
    (h : ∀ a ∈ before, f a.pair = none) :
    ((before ++ attrs).map Attr.pair).findSome? f = (attrs.map Attr.pair).findSome? f := by
  have hnone : (before.map Attr.pair).findSome? f = none := by
    rw [List.findSome?_eq_none_iff]
    intro pair hpair
    obtain ⟨a, ha, rfl⟩ := List.mem_map.mp hpair
    exact h a ha
  rw [List.map_append, List.findSome?_append, hnone, Option.none_or]

/-- A message with the two attributes yields the two keys. -/
theorem getMsKeys_eq (hsend : sendKey.length ≤ 223) (hrecv : recvKey.length ≤ 223)
    (hsend' : sendKey ≠ []) (hrecv' : recvKey ≠ [])
    (hmsg : Holds msg hdr (before ++
      mppeAttr md5 secret reqAuthenticator vendorAttrMsMppeSendKey salt sendKey hsend ::
        mppeAttr md5 secret reqAuthenticator vendorAttrMsMppeRecvKey (salt ^^^ 1) recvKey hrecv ::
          behind))
    (hbefore : NoMsKeys before) (hsent : sentMsg.authenticator = some reqAuthenticator.val) :
    radiusMsgGetMsKeys md5 msg sentMsg secret = some ⟨some sendKey, some recvKey⟩ := by
  have hfoundSend : getVendorAttr msg.data vendorIdMicrosoft vendorAttrMsMppeSendKey msg.attrs.pos =
      some (some (ofBeNat salt.toNat 2 ++
        hiddenKey md5 secret reqAuthenticator (ofBeNat salt.toNat 2) sendKey)) := by
    rw [getVendorAttr_eq hmsg.forall₂, findSome?_before fun a ha => (hbefore a ha).1, List.map_cons,
      List.findSome?_cons, vendorAttr_mppeAttr, if_pos rfl]
  have hfoundRecv : getVendorAttr msg.data vendorIdMicrosoft vendorAttrMsMppeRecvKey msg.attrs.pos =
      some (some (ofBeNat (salt ^^^ 1).toNat 2 ++
        hiddenKey md5 secret reqAuthenticator (ofBeNat (salt ^^^ 1).toNat 2) recvKey)) := by
    rw [getVendorAttr_eq hmsg.forall₂, findSome?_before fun a ha => (hbefore a ha).2, List.map_cons,
      List.findSome?_cons, vendorAttr_mppeAttr, if_neg (by decide), List.map_cons,
      List.findSome?_cons, vendorAttr_mppeAttr, if_pos rfl]
  have hplainSend := @decryptMsKey_eq md5 secret sendKey reqAuthenticator hsend hsend' _
    (ofBeNat_length salt.toNat 2)
  have hplainRecv := @decryptMsKey_eq md5 secret recvKey reqAuthenticator hrecv hrecv' _
    (ofBeNat_length (salt ^^^ 1).toNat 2)
  simp only [radiusMsgGetMsKeys, getMsKey, hfoundSend, hfoundRecv, hsent, Option.bind_eq_bind,
    Option.bind_some, hplainSend, hplainRecv]
  rfl

/-- What `radius_msg_add_mppe_keys` makes of a message. -/
theorem addMppeKeys_holds (malloc : Malloc) (random : UInt16) (hmsg : Holds msg hdr before)
    (hsend : sendKey.length ≤ 223) (hrecv : recvKey.length ≤ 223) :
    ∃ msg', radiusMsgAddMppeKeys md5 malloc random msg reqAuthenticator secret sendKey recvKey =
        some (msg', true) ∧
      Holds msg' hdr (before ++
        [mppeAttr md5 secret reqAuthenticator vendorAttrMsMppeSendKey (random ||| 0x8000) sendKey hsend,
          mppeAttr md5 secret reqAuthenticator vendorAttrMsMppeRecvKey ((random ||| 0x8000) ^^^ 1)
            recvKey hrecv]) := by
  obtain ⟨msg₁, attr₁, hadd₁, hmsg₁⟩ := @addMppeKey_holds md5 secret sendKey reqAuthenticator
    vendorAttrMsMppeSendKey (random ||| 0x8000) msg hdr before malloc hmsg hsend
  obtain ⟨msg₂, attr₂, hadd₂, hmsg₂⟩ := @addMppeKey_holds md5 secret recvKey reqAuthenticator
    vendorAttrMsMppeRecvKey ((random ||| 0x8000) ^^^ 1) msg₁ hdr _ malloc hmsg₁ hrecv
  refine ⟨msg₂, ?_, ?_⟩
  · simp only [radiusMsgAddMppeKeys, hadd₁, hadd₂, Option.bind_eq_bind, Option.bind_some]
    rfl
  · rw [List.append_assoc] at hmsg₂
    exact hmsg₂

end RoundTrip

section Inside
variable {md5 : Md5} {secret buf : Bytes}

theorem chained_isSome (first : Option Bytes) (buf : Bytes) (pos : ℕ)
    (h : first = none → md5MacLen ≤ pos ∧ pos ≤ buf.length) :
    ∃ prev, chained first buf pos = some prev := by
  cases first with
  | some bs => exact ⟨bs, rfl⟩
  | none =>
    obtain ⟨hlow, hhigh⟩ := h rfl
    exact ⟨_, readSlice_eq (by omega)⟩

/-- Whole blocks that are there are deciphered without a read beyond them. -/
theorem decryptBlocks_inside {n pos : ℕ} {first : Option Bytes}
    (hroom : pos + md5MacLen * n ≤ buf.length) (hfirst : first = none → md5MacLen ≤ pos) :
    ∃ plain, decryptBlocks md5 secret buf (md5MacLen * n) first pos = some plain ∧
      plain.length = md5MacLen * n := by
  induction n generalizing pos first with
  | zero => exact ⟨[], by rw [decryptBlocks, if_pos (Nat.mul_zero _)], rfl⟩
  | succ n ih =>
    rw [Nat.mul_succ] at hroom
    obtain ⟨prev, hprev⟩ := chained_isSome first buf pos
      fun hnone => ⟨hfirst hnone, by omega⟩
    obtain ⟨rest, hrest, hlen⟩ := @ih (pos + md5MacLen) none (by omega)
      fun _ => Nat.le_add_left _ _
    have hblock : buf.readSlice pos md5MacLen = some (buf.slice pos md5MacLen) :=
      readSlice_eq (by omega)
    have hblocklen : (buf.slice pos md5MacLen).length = (md5.vector (secret ++ prev)).val.length := by
      rw [slice_length, (md5.vector _).2]
      omega
    have hzero : ¬ md5MacLen * (n + 1) = 0 := Nat.mul_ne_zero (by decide) (Nat.succ_ne_zero n)
    have hleft : md5MacLen * (n + 1) - md5MacLen = md5MacLen * n := by
      rw [Nat.mul_succ, Nat.add_sub_cancel]
    refine ⟨xor (buf.slice pos md5MacLen) (md5.vector (secret ++ prev)).val ++ rest, ?_, ?_⟩
    · rw [decryptBlocks, if_neg hzero, hprev, hblock]
      simp only [Option.bind_eq_bind, Option.bind_some, hleft, hrest]
      rfl
    · rw [List.length_append, length_xor hblocklen, (md5.vector _).2, hlen, Nat.mul_succ,
        Nat.add_comm]

theorem decryptMsKey_inside (key reqAuthenticator : Bytes) :
    ∃ res, decryptMsKey md5 key reqAuthenticator secret = some res := by
  unfold decryptMsKey
  split
  · exact ⟨none, rfl⟩
  · simp only
    split
    · exact ⟨none, rfl⟩
    · rename_i hshort hwhole
      obtain ⟨n, hn⟩ : ∃ n, key.length - 2 = md5MacLen * n := by
        refine ⟨(key.length - 2) / 16, ?_⟩
        unfold md5MacLen
        omega
      obtain ⟨plain, hplain, hlen⟩ := @decryptBlocks_inside md5 secret key n 2
        (some (reqAuthenticator ++ key.slice 0 2)) (by omega) (fun hnone => by cases hnone)
      have hsalt : key.readSlice 0 2 = some (key.slice 0 2) := readSlice_eq (by omega)
      have hoctet : plain.read8 0 = some (plain.byteAt 0) := read8_eq (by omega)
      rw [hsalt, hn]
      simp only [Option.bind_eq_bind, Option.bind_some, hplain, hoctet]
      split
      · exact ⟨none, rfl⟩
      · rename_i hbad
        rw [readSlice_eq (by omega)]
        exact ⟨_, rfl⟩

theorem tunnelBlocks_inside (md5 : Md5) (secret buf : Bytes) (pos : ℕ) (hroom : pos + 16 ≤ buf.length) :
    ∃ buf' pos', tunnelBlocks md5 secret pos buf = some (buf', pos') ∧ buf'.length = buf.length := by
  induction pos using Nat.strong_induction_on generalizing buf with
  | _ pos ih =>
    rw [tunnelBlocks]
    split
    · rename_i hge
      have hblock : (buf.slice pos 16).length =
          (md5.vector (secret ++ buf.slice (pos - 16) 16)).val.length := by
        rw [slice_length, (md5.vector _).2, md5MacLen]
        omega
      obtain ⟨c, hc⟩ : ∃ c, c = xor (buf.slice pos 16)
        (md5.vector (secret ++ buf.slice (pos - 16) 16)).val := ⟨_, rfl⟩
      have hclen : c.length = 16 := by rw [hc, length_xor hblock, (md5.vector _).2]; rfl
      have hstore : buf.store pos c = some (buf.writeAt pos c) := if_pos (by omega)
      rw [readSlice_eq (by omega), readSlice_eq hroom]
      simp only [Option.bind_eq_bind, Option.bind_some, ← hc, hstore]
      obtain ⟨buf', pos', hrest, hlen⟩ := ih (pos - 16) (by omega)
        (buf.writeAt pos c) (by rw [writeAt_length]; omega)
      exact ⟨buf', pos', hrest, hlen.trans (writeAt_length ..)⟩
    · exact ⟨buf, pos, rfl, rfl⟩

/-- The search stays inside the attributes, and what it finds is a tag, a salt and whole blocks. -/
theorem findTunnelPassword_inside {data : Bytes} {ps : List ℕ} {attrs : List Attr}
    (h : List.Forall₂ (At data) ps attrs) (n : ℕ) :
    ∃ found, findTunnelPassword data ps n = some found ∧
      ∀ buf, found = some buf → 3 + 16 ≤ buf.length := by
  induction h generalizing n with
  | nil => exact ⟨none, rfl, fun buf hbuf => by cases hbuf⟩
  | cons hat _ ih =>
    rw [findTunnelPassword, hat.readAttr]
    simp only [Option.bind_eq_bind, Option.bind_some]
    split
    · exact ih n
    · split
      · exact ih n
      · rename_i hlen
        split
        · refine ⟨_, rfl, ?_⟩
          intro buf hbuf
          cases hbuf
          omega
        · exact ih (n - 1)

/-- A search that comes to the first block looks at nothing but what it has found. -/
theorem radiusMsgGetTunnelPassword_inside {msg sentMsg : Msg} {attrs : List Attr}
    {authenticator : Bytes} (h : List.Forall₂ (At msg.data) msg.attrs.pos attrs)
    (hsent : sentMsg.authenticator = some authenticator) (n : ℕ) :
    ∃ res, radiusMsgGetTunnelPassword md5 msg secret sentMsg n = some res := by
  obtain ⟨found, hfound, hlen⟩ := findTunnelPassword_inside h n
  rw [radiusMsgGetTunnelPassword, hfound]
  simp only [Option.bind_eq_bind, Option.bind_some]
  cases found with
  | none => exact ⟨none, rfl⟩
  | some buf =>
    have hroom : 3 + 16 ≤ buf.length := hlen buf rfl
    obtain ⟨buf', pos, hblocks, hlen'⟩ := tunnelBlocks_inside md5 secret buf
      (buf.length - 16) (Nat.le_of_eq (Nat.sub_add_cancel (by omega)))
    simp only [hblocks, Option.bind_some]
    split
    · exact ⟨none, rfl⟩
    · rename_i hfirst
      have hpos : pos = 3 := not_not.mp hfirst
      subst hpos
      have hblock : (buf'.slice 3 16).length =
          (md5.vector (secret ++ (authenticator ++ buf'.slice 1 2))).val.length := by
        rw [slice_length, (md5.vector _).2, md5MacLen]
        omega
      obtain ⟨c, hc⟩ : ∃ c, c = xor (buf'.slice 3 16)
        (md5.vector (secret ++ (authenticator ++ buf'.slice 1 2))).val := ⟨_, rfl⟩
      have hclen : c.length = 16 := by rw [hc, length_xor hblock, (md5.vector _).2]; rfl
      have hstore : buf'.store 3 c = some (buf'.writeAt 3 c) := if_pos (by omega)
      have hwritten : (buf'.writeAt 3 c).length = buf'.length := writeAt_length ..
      rw [hsent, readSlice_eq (by omega), readSlice_eq (by omega)]
      simp only [Option.bind_some, ← hc, hstore]
      rw [read8_eq (by omega), Option.bind_some]
      split
      · exact ⟨none, rfl⟩
      · rw [readSlice_eq (by omega)]
        exact ⟨_, rfl⟩

end Inside

/-- The keys that `radius_msg_add_mppe_keys` hides in a message come out of every message that has
its two attributes, and hidden attributes are never read beyond their ends. -/
theorem mppeKeys_roundTrip (md5 : Md5) (malloc : Malloc) (random : UInt16)
    (reqAuthenticator : Octets16) (secret sendKey recvKey : Bytes)
    (hsend : 1 ≤ sendKey.length ∧ sendKey.length ≤ 223)
    (hrecv : 1 ≤ recvKey.length ∧ recvKey.length ≤ 223) :
    (∃ send recv : Attr,
      (∀ msg hdr attrs, Holds msg hdr attrs →
        ∃ msg', radiusMsgAddMppeKeys md5 malloc random msg reqAuthenticator secret sendKey recvKey =
            some (msg', true) ∧
          Holds msg' hdr (attrs ++ [send, recv])) ∧
      ∀ msg sentMsg hdr before behind, Holds msg hdr (before ++ send :: recv :: behind) →
        NoMsKeys before → sentMsg.authenticator = some reqAuthenticator.val →
        radiusMsgGetMsKeys md5 msg sentMsg secret = some ⟨some sendKey, some recvKey⟩) ∧
    (∀ key authenticator, ∃ res, decryptMsKey md5 key authenticator secret = some res) ∧
    ∀ data msg sentMsg authenticator n, radiusMsgParse data = some (some msg) →
      sentMsg.authenticator = some authenticator →
      ∃ res, radiusMsgGetTunnelPassword md5 msg secret sentMsg n = some res := by
  refine ⟨⟨mppeAttr md5 secret reqAuthenticator vendorAttrMsMppeSendKey (random ||| 0x8000) sendKey
      hsend.2, mppeAttr md5 secret reqAuthenticator vendorAttrMsMppeRecvKey
      ((random ||| 0x8000) ^^^ 1) recvKey hrecv.2, ?_, ?_⟩, fun key authenticator =>
    decryptMsKey_inside key authenticator, ?_⟩
  · intro msg hdr attrs hmsg
    exact addMppeKeys_holds malloc random hmsg hsend.2 hrecv.2
  · intro msg sentMsg hdr before behind hmsg hbefore hsent
    exact getMsKeys_eq hsend.2 hrecv.2 (List.ne_nil_of_length_pos hsend.1)
      (List.ne_nil_of_length_pos hrecv.1) hmsg hbefore hsent
  · intro data msg sentMsg authenticator n hparse hsent
    obtain ⟨hdr, attrs, hmsg⟩ := parse_holds hparse
    exact radiusMsgGetTunnelPassword_inside hmsg.forall₂ hsent n

/-- A hash that is always the same. -/
def sameMd5 : Md5 := ⟨fun _ _ => ⟨zeros 16, rfl⟩, fun _ => ⟨zeros 16, rfl⟩⟩

/-- Blocks that are handed out empty. -/
def zeroed : Malloc := ⟨zeros, zeros_length⟩

theorem oneOctetKeys_roundTrip : ∃ msg msg', radiusMsgNew 2 7 = some msg ∧
    radiusMsgAddMppeKeys sameMd5 zeroed 0 msg ⟨zeros 16, rfl⟩ [3] [1] [2] = some (msg', true) ∧
    radiusMsgGetMsKeys sameMd5 msg' msg [3] = some ⟨some [1], some [2]⟩ := by
  obtain ⟨⟨send, recv, hadd, hget⟩, -⟩ := mppeKeys_roundTrip sameMd5 zeroed 0 ⟨zeros 16, rfl⟩ [3]
    [1] [2] ⟨by decide, by decide⟩ ⟨by decide, by decide⟩
  obtain ⟨msg, hnew, hmsg⟩ := radiusMsgNew_holds 2 7
  obtain ⟨msg', hadded, hmsg'⟩ := hadd msg _ _ hmsg
  have hauth : (radiusMsgNew 2 7).bind Msg.authenticator = some (zeros 16) := by decide
  rw [hnew] at hauth
  refine ⟨msg, msg', hnew, hadded, hget msg' msg _ [] [] hmsg' ?_ hauth⟩
  intro a ha
  cases ha

end Wpa.RadiusMsg
