import Wpa.Ft.Tlv

/-! The FT RRB messages of `ap/wpa_auth_ft.c`: an authenticated part behind its length, and TLVs
that are encrypted if there is a key. Memory is there when it is asked for. -/

namespace Wpa.Ft
open Lib Bytes

def aesBlockSize : ℕ := 16
def rrbMinMsgLen : ℕ := 64

/-- A key of one of the lengths that `aes_siv_encrypt` takes. -/
def SivKey := { key : Bytes // key.length = 32 ∨ key.length = 48 ∨ key.length = 64 }

/-- AES-SIV with a list of associated data: a plaintext has one ciphertext, nothing but a
ciphertext is decrypted, and none is another one with two octets behind it. -/
structure AesSiv where
  encrypt : SivKey → Bytes → List Bytes → Bytes
  decrypt : SivKey → Bytes → List Bytes → Option Bytes
  encrypt_length : ∀ key plain ad, (encrypt key plain ad).length = plain.length + aesBlockSize
  decrypt_iff : ∀ key enc ad plain, decrypt key enc ad = some plain ↔ encrypt key plain ad = enc
  encrypt_extended : ∀ key plain plain' ad stray, stray.length = 2 →
    encrypt key plain' ad ≠ encrypt key plain ad ++ stray

def rrbEncrypt (siv : AesSiv) (key : Option SivKey) (plain auth srcAddr : Bytes) (type : UInt8) :
    Bytes :=
  match key with
  | none => plain
  | some key => siv.encrypt key plain [srcAddr, auth, [type]]

/-- The padding that is added to the authenticated TLVs of a message of `packetLen` octets. -/
def rrbPadding (packetLen : ℕ) : Bytes :=
  if packetLen < rrbMinMsgLen then
    let padLen := max (rrbMinMsgLen - packetLen) tlvHdrLen
    ofLe16 ftRrbLastEmpty ++ ofLe16 (padLen - tlvHdrLen) ++ zeros (padLen - tlvHdrLen)
  else []

/-- `wpa_ft_rrb_build`. -/
def rrbBuild (siv : AesSiv) (key : Option SivKey) (tlvsEnc0 tlvsEnc1 tlvsAuth : List Tlv)
    (vlan : Option VlanDescription) (srcAddr : Bytes) (type : UInt8) : Option Bytes := do
  let plain ← rrbLin tlvsEnc0 tlvsEnc1 vlan
  let auth ← rrbLin tlvsAuth [] none
  let packetLen := 2 + auth.length + plain.length + if key.isSome then aesBlockSize else 0
  let auth' := auth ++ rrbPadding packetLen
  let packet := zeros (packetLen + (rrbPadding packetLen).length)
  let packet := packet.writeAt 0 (ofLe16 auth'.length)
  let packet := packet.writeAt 2 auth'
  return packet.writeAt (2 + auth'.length) (rrbEncrypt siv key plain auth' srcAddr type)

/-- The part of `wpa_ft_rrb_oui_rx` that takes a message apart: the authenticated TLVs and what is
behind them. -/
def rrbSplit (data : Bytes) : Option (Bytes × Bytes) :=
  if data.length < 2 then none
  else
    let alen := data.le16 0
    if data.length < 2 + alen then none
    else some (data.slice 2 alen, data.slice (2 + alen) (data.length - 2 - alen))

/-- `wpa_ft_rrb_decrypt`. The second attempt is for frames with two octets of padding. -/
def rrbDecrypt (siv : AesSiv) (key : Option SivKey) (enc auth srcAddr : Bytes) (type : UInt8) :
    Option Bytes :=
  match key with
  | none => some enc
  | some key =>
    if enc.length < aesBlockSize then none
    else
      match siv.decrypt key enc [srcAddr, auth, [type]] with
      | some plain => some plain
      | none =>
        if enc.length < aesBlockSize + 2 then none
        else siv.decrypt key (enc.take (enc.length - 2)) [srcAddr, auth, [type]]

section Decrypt
variable (siv : AesSiv) (key : Option SivKey) (plain auth srcAddr : Bytes) (type : UInt8)

theorem rrbEncrypt_length :
    (rrbEncrypt siv key plain auth srcAddr type).length =
      plain.length + if key.isSome then aesBlockSize else 0 := by
  cases key with
  | none => rfl
  | some key => exact siv.encrypt_length ..

/-- What was encrypted is decrypted, with two stray octets as well; without a key these stay
behind the plaintext. -/
theorem rrbDecrypt_encrypt {stray : Bytes} (hstray : stray.length = 0 ∨ stray.length = 2) :
    rrbDecrypt siv key (rrbEncrypt siv key plain auth srcAddr type ++ stray) auth srcAddr type =
      some (if key.isSome then plain else plain ++ stray) := by
  cases key with
  | none => rfl
  | some key =>
    have hlen := siv.encrypt_length key plain [srcAddr, auth, [type]]
    have hdecrypt := (siv.decrypt_iff key _ [srcAddr, auth, [type]] plain).mpr rfl
    rw [rrbDecrypt, rrbEncrypt, if_neg (by rw [List.length_append]; omega)]
    rcases hstray with hstray | hstray
    · rw [List.length_eq_zero_iff.mp hstray, List.append_nil, hdecrypt]
      rfl
    · have hnone : siv.decrypt key (siv.encrypt key plain [srcAddr, auth, [type]] ++ stray)
          [srcAddr, auth, [type]] = none := by
        rw [Option.eq_none_iff_forall_ne_some]
        intro plain' hplain'
        exact siv.encrypt_extended key plain plain' _ stray hstray
          ((siv.decrypt_iff ..).mp hplain')
      have htake : (siv.encrypt key plain [srcAddr, auth, [type]] ++ stray).take
          ((siv.encrypt key plain [srcAddr, auth, [type]] ++ stray).length - 2) =
          siv.encrypt key plain [srcAddr, auth, [type]] := by
        rw [List.length_append, hstray, Nat.add_sub_cancel, List.take_left]
      rw [hnone]
      dsimp only
      rw [if_neg (by rw [List.length_append]; omega), htake, hdecrypt]
      rfl

end Decrypt

section Frame

/-- A buffer that is filled part by part holds the parts. -/
theorem writeAt_parts {buf x y z : Bytes} (h : buf.length = x.length + y.length + z.length) :
    ((buf.writeAt 0 x).writeAt x.length y).writeAt (x.length + y.length) z = x ++ y ++ z := by
  have h₁ := writeAt_fill [] (z := buf) x (by omega)
  have h₂ := writeAt_fill x (z := buf.drop x.length) y (by
    rw [List.length_drop]
    omega)
  have h₃ := writeAt_fill (x ++ y) (z := (buf.drop x.length).drop y.length) z (by
    rw [List.length_drop, List.length_drop]
    omega)
  have hend : ((buf.drop x.length).drop y.length).drop z.length = [] := by
    apply List.drop_of_length_le
    rw [List.length_drop, List.length_drop]
    omega
  rw [List.length_append, hend, List.append_nil] at h₃
  simp only [List.nil_append, List.length_nil] at h₁
  rw [h₁, h₂, h₃]

/-- The padding makes up the least length of a frame. -/
theorem rrbMinMsgLen_le (packetLen : ℕ) :
    rrbMinMsgLen ≤ packetLen + (rrbPadding packetLen).length := by
  unfold rrbPadding
  split
  · simp only [List.length_append, ofLe16_length, zeros_length, tlvHdrLen]
    omega
  · omega

theorem rrbPadding_length_lt {packetLen : ℕ} (h : rrbPadding packetLen ≠ []) :
    packetLen + (rrbPadding packetLen).length < 68 := by
  unfold rrbPadding at h ⊢
  split
  · rename_i hshort
    simp only [List.length_append, ofLe16_length, zeros_length, tlvHdrLen, rrbMinMsgLen] at *
    omega
  · rename_i hlong
    rw [if_neg hlong] at h
    exact absurd rfl h

/-- A message is its length, the authenticated part and the encrypted one. -/
theorem rrbBuild_eq (siv : AesSiv) (key : Option SivKey) (tlvsEnc0 tlvsEnc1 tlvsAuth : List Tlv)
    (vlan : Option Vlan) (srcAddr : Bytes) (type : UInt8) :
    ∃ pad, rrbMinMsgLen ≤ 2 + tlvLen tlvsAuth + pad.length +
        (rrbEncrypt siv key (encodeTlvs (tlvsEnc0 ++ tlvsEnc1 ++ vlanTlvs vlan))
          (encodeTlvs tlvsAuth ++ pad) srcAddr type).length ∧
      (∃ n, pad = rrbPadding n ∧ tlvLen tlvsAuth ≤ n) ∧
      rrbBuild siv key tlvsEnc0 tlvsEnc1 tlvsAuth (vlan.map Vlan.val) srcAddr type =
        some (ofLe16 (encodeTlvs tlvsAuth ++ pad).length ++ (encodeTlvs tlvsAuth ++ pad) ++
          rrbEncrypt siv key (encodeTlvs (tlvsEnc0 ++ tlvsEnc1 ++ vlanTlvs vlan))
            (encodeTlvs tlvsAuth ++ pad) srcAddr type) := by
  have hauth : rrbLin tlvsAuth [] none = some (encodeTlvs tlvsAuth) := by
    have hlin := rrbLin_eq tlvsAuth [] none
    simp only [vlanTlvs, List.append_nil, Option.map_none] at hlin
    exact hlin
  obtain ⟨plain, hplain⟩ : ∃ plain, plain = encodeTlvs (tlvsEnc0 ++ tlvsEnc1 ++ vlanTlvs vlan) :=
    ⟨_, rfl⟩
  obtain ⟨n, hn⟩ : ∃ n, n = 2 + (encodeTlvs tlvsAuth).length + plain.length +
      if key.isSome then aesBlockSize else 0 := ⟨_, rfl⟩
  have henc := rrbEncrypt_length siv key plain (encodeTlvs tlvsAuth ++ rrbPadding n) srcAddr type
  have hmin := rrbMinMsgLen_le n
  rw [← hplain]
  refine ⟨rrbPadding n, ?_, ⟨n, rfl, ?_⟩, ?_⟩
  · rw [encodeTlvs_length] at hn
    omega
  · rw [encodeTlvs_length] at hn
    omega
  · have hsize : (zeros (n + (rrbPadding n).length)).length =
        (ofLe16 (encodeTlvs tlvsAuth ++ rrbPadding n).length).length +
          (encodeTlvs tlvsAuth ++ rrbPadding n).length +
          (rrbEncrypt siv key plain (encodeTlvs tlvsAuth ++ rrbPadding n) srcAddr type).length := by
      rw [zeros_length, ofLe16_length, List.length_append, henc, hn]
      omega
    simp only [rrbBuild, rrbLin_eq, hauth, ← hplain, Option.bind_eq_bind, Option.bind_some, ← hn]
    rw [← writeAt_parts hsize]
    rfl

/-- A message comes apart where it was put together, and what is behind it goes to the encrypted
part. -/
theorem rrbSplit_append {auth : Bytes} (hauth : auth.length < 65536) (enc : Bytes) :
    rrbSplit (ofLe16 auth.length ++ auth ++ enc) = some (auth, enc) := by
  have hlen : (ofLe16 auth.length ++ auth ++ enc).length = 2 + auth.length + enc.length := by
    rw [List.length_append, List.length_append, ofLe16_length]
  have halen : le16 (ofLe16 auth.length ++ auth ++ enc) 0 = auth.length := by
    rw [List.append_assoc]
    exact le16_ofLe16 hauth _
  have hhead : slice (ofLe16 auth.length ++ auth ++ enc) 2 auth.length = auth := by
    rw [slice, List.append_assoc, List.drop_left' (ofLe16_length _), List.take_left]
  have htail : slice (ofLe16 auth.length ++ auth ++ enc) (2 + auth.length) enc.length = enc := by
    have hfront : (ofLe16 auth.length ++ auth).length = 2 + auth.length := by
      rw [List.length_append, ofLe16_length]
    rw [slice, List.drop_left' hfront, List.take_length]
  have hrest : 2 + auth.length + enc.length - 2 - auth.length = enc.length := by omega
  rw [rrbSplit, if_neg (by omega)]
  simp only [halen, hlen, hrest, hhead, htail]
  rw [if_neg (by omega)]

end Frame

/-- The padding is a TLV of a type that no other one has. -/
theorem getTlv_padding (type n : ℕ) (htype : type ≠ ftRrbLastEmpty) (tlvs : List Tlv) :
    getTlv type (encodeTlvs tlvs ++ rrbPadding n) =
      (tlvs.find? fun t => t.type = type).map Tlv.data := by
  unfold rrbPadding
  split
  · obtain ⟨len, hlen⟩ : ∃ len, len = max (rrbMinMsgLen - n) tlvHdrLen - tlvHdrLen := ⟨_, rfl⟩
    have hlt : len < 65536 := by
      rw [hlen, rrbMinMsgLen, tlvHdrLen]
      omega
    have hnone : getTlv type (ofLe16 ftRrbLastEmpty ++ ofLe16 len ++ zeros len) = none := by
      have hhdr : (ofLe16 ftRrbLastEmpty ++ ofLe16 len).length = tlvHdrLen := rfl
      have htype' : le16 (ofLe16 ftRrbLastEmpty ++ ofLe16 len ++ zeros len) 0 =
          ftRrbLastEmpty := by
        rw [List.append_assoc]
        exact le16_ofLe16 (by decide) _
      have hlen' : le16 (ofLe16 ftRrbLastEmpty ++ ofLe16 len ++ zeros len) 2 = len := by
        have hdrop := le16_drop (ofLe16 ftRrbLastEmpty ++ ofLe16 len ++ zeros len) 2 0
        rw [Nat.add_zero] at hdrop
        rw [← hdrop, List.append_assoc, List.drop_left' (ofLe16_length _)]
        exact le16_ofLe16 hlt _
      have hdrop : (ofLe16 ftRrbLastEmpty ++ ofLe16 len ++ zeros len).drop tlvHdrLen = zeros len :=
        List.drop_left' hhdr
      have hend : (zeros len).drop len = [] := List.drop_of_length_le (le_of_eq (zeros_length len))
      rw [getTlv, if_neg (by rw [List.length_append, hhdr]; omega)]
      simp only [hdrop, hlen', htype', zeros_length, lt_irrefl, if_false, hend,
        if_neg (Ne.symm htype)]
      rw [getTlv, if_pos (by decide)]
    dsimp only
    rw [← hlen, getTlv_append, hnone, Option.or_none]
  · exact getTlv_encode type tlvs (by decide)

/-- A message that was built, with no or two stray octets behind it, is taken apart and decrypted to
the TLVs that were put in, with padding or less than a TLV header behind them. -/
theorem rrb_parts (siv : AesSiv) (key : Option SivKey) (tlvsEnc0 tlvsEnc1 tlvsAuth : List Tlv)
    (vlan : Option Vlan) (srcAddr : Bytes) (type : UInt8) (hauth : tlvLen tlvsAuth < 65536) :
    ∃ packet n, rrbBuild siv key tlvsEnc0 tlvsEnc1 tlvsAuth (vlan.map Vlan.val) srcAddr type =
        some packet ∧ rrbMinMsgLen ≤ packet.length ∧
      ∀ stray : Bytes, stray.length = 0 ∨ stray.length = 2 →
        ∃ enc rest, rest.length < tlvHdrLen ∧
          rrbSplit (packet ++ stray) = some (encodeTlvs tlvsAuth ++ rrbPadding n, enc) ∧
          rrbDecrypt siv key enc (encodeTlvs tlvsAuth ++ rrbPadding n) srcAddr type =
            some (encodeTlvs (tlvsEnc0 ++ tlvsEnc1 ++ vlanTlvs vlan) ++ rest) := by
  obtain ⟨pad, hmin, ⟨n, hpad, hn⟩, hbuild⟩ :=
    rrbBuild_eq siv key tlvsEnc0 tlvsEnc1 tlvsAuth vlan srcAddr type
  refine ⟨_, n, hbuild, ?_, ?_⟩
  · rw [List.length_append, List.length_append, ofLe16_length, List.length_append,
      encodeTlvs_length, ← Nat.add_assoc]
    exact hmin
  · intro stray hstray
    have hlen : (encodeTlvs tlvsAuth ++ pad).length < 65536 := by
      rw [List.length_append, encodeTlvs_length, hpad]
      by_cases hempty : rrbPadding n = []
      · rw [hempty, List.length_nil]
        exact hauth
      · have hshort := rrbPadding_length_lt hempty
        omega
    have hrest : (if key.isSome then [] else stray).length < tlvHdrLen := by
      rw [tlvHdrLen]
      split
      · decide
      · omega
    have hdecrypt := rrbDecrypt_encrypt siv key
      (encodeTlvs (tlvsEnc0 ++ tlvsEnc1 ++ vlanTlvs vlan)) (encodeTlvs tlvsAuth ++ pad) srcAddr type
      hstray
    have hplain : (if key.isSome then encodeTlvs (tlvsEnc0 ++ tlvsEnc1 ++ vlanTlvs vlan)
        else encodeTlvs (tlvsEnc0 ++ tlvsEnc1 ++ vlanTlvs vlan) ++ stray) =
        encodeTlvs (tlvsEnc0 ++ tlvsEnc1 ++ vlanTlvs vlan) ++
          (if key.isSome then [] else stray) := by
      split
      · rw [List.append_nil]
      · rfl
    rw [hplain] at hdecrypt
    have hsplit := rrbSplit_append hlen (rrbEncrypt siv key
      (encodeTlvs (tlvsEnc0 ++ tlvsEnc1 ++ vlanTlvs vlan)) (encodeTlvs tlvsAuth ++ pad) srcAddr
      type ++ stray)
    rw [← List.append_assoc] at hsplit
    rw [← hpad]
    exact ⟨_, _, hrest, hsplit, hdecrypt⟩

/-- A tag that tells lengths apart which differ by two, with the plaintext behind it. -/
def lengthTag (n : ℕ) : Bytes := List.replicate aesBlockSize (UInt8.ofNat (n / 2 % 2))

instance : Inhabited AesSiv where
  default :=
    { encrypt := fun _ plain _ => lengthTag plain.length ++ plain
      decrypt := fun _ enc _ =>
        if enc.take aesBlockSize = lengthTag (enc.length - aesBlockSize) ∧
            aesBlockSize ≤ enc.length then some (enc.drop aesBlockSize) else none
      encrypt_length := by
        intro key plain ad
        rw [List.length_append, lengthTag, List.length_replicate, Nat.add_comm]
      decrypt_iff := by
        intro key enc ad plain
        have htag : ∀ n, (lengthTag n).length = aesBlockSize := fun n => List.length_replicate
        constructor
        · intro h
          split at h
          · rename_i hvalid
            cases h
            rw [List.length_drop, ← hvalid.1, List.take_append_drop]
          · cases h
        · rintro rfl
          rw [List.take_left' (htag _), List.length_append, htag, Nat.add_sub_cancel_left,
            if_pos ⟨rfl, Nat.le_add_right _ _⟩, List.drop_left' (htag _)]
      encrypt_extended := by
        intro key plain plain' ad stray hstray h
        have hlen := congrArg List.length h
        have htag : ∀ n, (lengthTag n).length = aesBlockSize := fun n => List.length_replicate
        simp only [List.length_append, htag, hstray] at hlen
        rw [List.append_assoc] at h
        have htags := (List.append_inj h (by rw [htag, htag])).1
        have hfirst := congrArg (fun b : Bytes => b.byteAt 0) htags
        have hbyte : ∀ n, (lengthTag n).byteAt 0 = n / 2 % 2 := by
          intro n
          have hmod : n / 2 % 2 < 2 := Nat.mod_lt _ (by decide)
          show (UInt8.ofNat (n / 2 % 2)).toNat = _
          rw [UInt8.toNat_ofNat']
          omega
        simp only [hbyte] at hfirst
        omega }

def exampleVlanTlv : Tlv :=
  ⟨13, ofLe16 5, by decide, by decide, by decide⟩

def exampleAuthTlv : Tlv := ⟨1, [7, 7], by decide, by decide, by decide⟩

end Wpa.Ft
