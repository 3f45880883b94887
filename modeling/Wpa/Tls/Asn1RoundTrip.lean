import Wpa.Tls.Asn1

/-! What the DER reader returns for what the writer wrote: headers and integers always come back,
an object identifier exactly if it fits the one-octet fields of its encoding. -/

namespace Wpa.Asn1
open Lib Bytes

/-! ### Headers -/

theorem readLength_eq {n : ℕ} {bs rest : Bytes} {acc : ℕ} (hn : bs.length = n)
    (hfit : acc * 256 ^ n + bs.beNat < 2 ^ 32) :
    readLength n (bs ++ rest) acc = some (acc * 256 ^ n + bs.beNat, rest) := by
  induction bs generalizing n acc with
  | nil =>
    subst hn
    simp [readLength, beNat]
  | cons x bs ih =>
    subst hn
    have hpos : 0 < 256 ^ bs.length := by positivity
    have hsplit : acc * 256 ^ (x :: bs).length + beNat (x :: bs) =
        (acc * 256 + x.toNat) * 256 ^ bs.length + beNat bs := by
      rw [List.length_cons, pow_succ, beNat]
      ring
    rw [hsplit] at hfit ⊢
    have hacc : acc * 256 + x.toNat < 2 ^ 32 := by
      have hle : (acc * 256 + x.toNat) * 1 ≤ (acc * 256 + x.toNat) * 256 ^ bs.length :=
        Nat.mul_le_mul_left _ hpos
      omega
    rw [List.length_cons, List.cons_append, readLength, Nat.mod_eq_of_lt hacc]
    exact ih rfl hfit

theorem getLength_cons_long {tmp : UInt8} (rest : Bytes) (hlong : 128 ≤ tmp.toNat)
    (hff : tmp.toNat ≠ 0xff) :
    getLength (tmp :: rest) =
      if tmp.toNat % 128 = 0 ∨ rest = [] ∨ byteAt rest 0 = 0 then none
      else if 4 < tmp.toNat % 128 then none
      else
        match readLength (tmp.toNat % 128) rest 0 with
        | none => none
        | some (length, rest) => if length < 128 then none else some (length, rest) := by
  rw [getLength]
  exact (if_pos hlong).trans (if_neg hff)

/-- A long form with the given number of octets, whose first is not zero. -/
theorem getLength_long {n len : ℕ} {tmp : UInt8} (rest : Bytes) (htmp : tmp.toNat = 128 + n)
    (hn : 0 < n ∧ n ≤ 4) (hlow : 256 ^ (n - 1) ≤ len) (hhigh : len < 256 ^ n) (hmin : 128 ≤ len) :
    getLength (tmp :: ofBeNat len n ++ rest) = some (len, rest) := by
  obtain ⟨m, rfl⟩ : ∃ m, n = m + 1 := ⟨n - 1, by omega⟩
  have hmod : tmp.toNat % 128 = m + 1 := by omega
  have hfirst : byteAt (ofBeNat len (m + 1) ++ rest) 0 = len / 256 ^ m := by
    have hdiv : len / 256 ^ m < 256 := by
      rw [Nat.div_lt_iff_lt_mul (by positivity), mul_comm, ← pow_succ]
      exact hhigh
    rw [ofBeNat, byteAt, List.cons_append, List.getD_cons_zero, UInt8.toNat_ofNat']
    exact Nat.mod_eq_of_lt hdiv
  have hfirst_ne : len / 256 ^ m ≠ 0 :=
    (Nat.div_pos (by simpa using hlow) (by positivity)).ne'
  have hvalue := beNat_ofBeNat hhigh
  have hsmall : len < 2 ^ 32 := by
    have hpow : (256 : ℕ) ^ (m + 1) ≤ 256 ^ 4 := Nat.pow_le_pow_right (by decide) hn.2
    exact hhigh.trans_le (hpow.trans (by decide))
  have hread : readLength (m + 1) (ofBeNat len (m + 1) ++ rest) 0 = some (len, rest) := by
    rw [readLength_eq (ofBeNat_length ..) (by rw [hvalue]; omega), hvalue, Nat.zero_mul,
      Nat.zero_add]
  have hne : ofBeNat len (m + 1) ++ rest ≠ [] := by simp [ofBeNat]
  rw [List.cons_append, getLength_cons_long _ (by omega) (by omega), hmod, hfirst, hread]
  rw [if_neg (by simp [hne, hfirst_ne]), if_neg (by omega)]
  exact if_neg (by omega)

theorem getLength_putLen {len : ℕ} (h : len < 2 ^ 32) (rest : Bytes) :
    getLength (putLen len ++ rest) = some (len, rest) := by
  rw [putLen]
  split
  · have hbyte : (UInt8.ofNat len).toNat = len := by
      rw [UInt8.toNat_ofNat']
      omega
    rw [List.singleton_append, getLength, hbyte, if_neg (by omega)]
  · split
    · have hone : [0x81, UInt8.ofNat len] = 0x81 :: ofBeNat len 1 := by
        rw [ofBeNat, ofBeNat, pow_zero, Nat.div_one]
      rw [hone]
      exact getLength_long rest rfl (by decide) (by simp; omega) (by omega) (by omega)
    · split
      · exact getLength_long rest rfl (by decide) (by omega) (by omega) (by omega)
      · split
        · exact getLength_long rest rfl (by decide) (by omega) (by omega) (by omega)
        · rw [Nat.mod_eq_of_lt h]
          exact getLength_long rest rfl (by decide) (by omega) (by omega) (by omega)

/-- The identifier octet holds class, form and tag. -/
theorem identifier_eq {cls tag : ℕ} (hcls : cls < 4) (htag : tag < 31) (constructed : Bool) :
    let x := (UInt8.ofNat (cls <<< 6 ||| (if constructed then 0x20 else 0x00) ||| tag)).toNat
    x / 64 = cls ∧ (x / 32 % 2 == 1) = constructed ∧ x % 32 = tag := by
  have hall : ∀ c < 4, ∀ t < 31, ∀ b : Bool,
      let x := (UInt8.ofNat (c <<< 6 ||| (if b then 0x20 else 0x00) ||| t)).toNat
      x / 64 = c ∧ (x / 32 % 2 == 1) = b ∧ x % 32 = t := by decide
  exact hall cls hcls tag htag constructed

theorem getNext_cons {x : UInt8} {rest rest' payload : Bytes} {tag length : ℕ}
    (htag : getTag x.toNat rest = some (tag, rest'))
    (hlength : getLength rest' = some (length, payload)) :
    getNext (x :: rest) =
      if payload.length % 2 ^ 32 < length then none
      else if validDer (x.toNat / 64) (x.toNat / 32 % 2 == 1) tag length payload then
        some ⟨(x :: rest).length - payload.length, x.toNat, x.toNat / 64, x.toNat / 32 % 2 == 1,
          tag, length⟩
      else none := by
  simp only [getNext, htag, hlength, Option.bind_eq_bind, Option.bind_some]

/-- A header followed by its payload is read as it was written. -/
theorem getNext_putHdr {cls tag : ℕ} {constructed : Bool} {payload : Bytes} (hcls : cls < 4)
    (htag : tag < 31) (hlen : payload.length < 2 ^ 32)
    (hder : validDer cls constructed tag payload.length payload = true) :
    ∃ hdr, getNext (putHdr cls constructed tag payload.length ++ payload) = some hdr ∧
      hdr.cls = cls ∧ hdr.constructed = constructed ∧ hdr.tag = tag ∧
      hdr.length = payload.length ∧
      hdr.payload = (putHdr cls constructed tag payload.length).length := by
  obtain ⟨hc, hb, ht⟩ := identifier_eq hcls htag constructed
  set x := (UInt8.ofNat (cls <<< 6 ||| (if constructed then 0x20 else 0x00) ||| tag)) with hx
  have htagread : ∀ rest, getTag x.toNat rest = some (tag, rest) := by
    intro rest
    rw [getTag, ht, if_neg (by omega)]
  have hroom : ¬ payload.length % 2 ^ 32 < payload.length := by
    rw [Nat.mod_eq_of_lt hlen]
    exact lt_irrefl _
  refine ⟨⟨(putHdr cls constructed tag payload.length).length, x.toNat, x.toNat / 64,
    x.toNat / 32 % 2 == 1, tag, payload.length⟩, ?_, hc, hb, rfl, rfl, rfl⟩
  · rw [putHdr, ← hx, List.cons_append, getNext_cons (htagread _) (getLength_putLen hlen payload),
      if_neg hroom, hc, hb, hder, if_pos rfl, List.length_cons, List.length_append,
      List.length_cons]
    congr 2
    omega

theorem readTag_suffix {rest rest' : Bytes} {tag n tag' n' : ℕ}
    (h : readTag rest tag n = some (tag', n', rest')) : rest' <:+ rest := by
  induction rest generalizing tag n with
  | nil => cases h
  | cons x rest ih =>
    rw [readTag] at h
    split at h
    · exact (ih h).trans (List.suffix_cons x rest)
    · simp only [Option.some.injEq, Prod.mk.injEq] at h
      rw [← h.2.2]
      exact List.suffix_cons x rest

theorem getTag_suffix {identifier tag : ℕ} {rest rest' : Bytes}
    (h : getTag identifier rest = some (tag, rest')) : rest' <:+ rest := by
  rw [getTag] at h
  split at h
  · split at h
    · cases h
    · split at h
      · cases h
      · rename_i htag
        split at h
        · cases h
        · simp only [Option.some.injEq, Prod.mk.injEq] at h
          exact h.2 ▸ readTag_suffix htag
  · simp only [Option.some.injEq, Prod.mk.injEq] at h
    rw [h.2]

theorem readLength_suffix {n length length' : ℕ} {rest rest' : Bytes}
    (h : readLength n rest length = some (length', rest')) :
    rest'.length + n = rest.length ∧ rest' <:+ rest := by
  induction n generalizing rest length with
  | zero =>
    simp only [readLength, Option.some.injEq, Prod.mk.injEq] at h
    rw [h.2]
    exact ⟨rfl, List.suffix_rfl⟩
  | succ n ih =>
    cases rest with
    | nil => cases h
    | cons x rest =>
      obtain ⟨hlen, hsuffix⟩ := ih h
      refine ⟨?_, hsuffix.trans (List.suffix_cons x rest)⟩
      rw [List.length_cons, ← hlen, Nat.add_assoc]

/-- What the length field is read from, in its two forms. -/
theorem getLength_cases {buf rest : Bytes} {length : ℕ} (h : getLength buf = some (length, rest)) :
    ∃ x more, buf = x :: more ∧
      ((x.toNat < 128 ∧ length = x.toNat ∧ rest = more) ∨
        ∃ n, 0 < n ∧ n ≤ 4 ∧ x.toNat = 128 + n ∧ byteAt more 0 ≠ 0 ∧ 128 ≤ length ∧
          readLength n more 0 = some (length, rest)) := by
  cases buf with
  | nil => cases h
  | cons x more =>
    refine ⟨x, more, rfl, ?_⟩
    have hx := x.toNat_lt
    by_cases hlong : 128 ≤ x.toNat
    · by_cases hff : x.toNat = 0xff
      · rw [getLength, if_pos hlong, if_pos hff] at h
        cases h
      · rw [getLength_cons_long more hlong hff] at h
        split at h
        · cases h
        · rename_i hbad
          simp only [not_or] at hbad
          split at h
          · cases h
          · split at h
            · cases h
            · rename_i hread
              split at h
              · cases h
              · simp only [Option.some.injEq, Prod.mk.injEq] at h
                obtain ⟨rfl, rfl⟩ := h
                exact Or.inr ⟨x.toNat % 128, by omega, by omega, by omega, hbad.2.2, by omega, hread⟩
    · rw [getLength, if_neg hlong] at h
      simp only [Option.some.injEq, Prod.mk.injEq] at h
      exact Or.inl ⟨by omega, h.1.symm, h.2.symm⟩

/-- A successful reader found a tag, a length and a payload that is long enough. -/
theorem getNext_cases {buf : Bytes} {hdr : Hdr} (h : getNext buf = some hdr) :
    ∃ x rest rest' payload, buf = x :: rest ∧ getTag x.toNat rest = some (hdr.tag, rest') ∧
      getLength rest' = some (hdr.length, payload) ∧ payload <:+ rest ∧
      hdr.length ≤ payload.length ∧ hdr.payload = buf.length - payload.length ∧
      hdr.cls = x.toNat / 64 := by
  cases buf with
  | nil => cases h
  | cons x rest =>
    cases htag : getTag x.toNat rest with
    | none => simp [getNext, htag] at h
    | some found =>
      obtain ⟨tag, rest'⟩ := found
      cases hlength : getLength rest' with
      | none => simp [getNext, htag, hlength] at h
      | some found =>
        obtain ⟨length, payload⟩ := found
        have hsuffix : payload <:+ rest' := by
          obtain ⟨y, more, rfl, ⟨-, -, rfl⟩ | ⟨n, -, -, -, -, -, hread⟩⟩ := getLength_cases hlength
          · exact List.suffix_cons y payload
          · exact (readLength_suffix hread).2.trans (List.suffix_cons y more)
        rw [getNext_cons htag hlength] at h
        split at h
        · cases h
        · rename_i hroom
          split at h
          · obtain rfl := Option.some_inj.mp h
            have hle : length ≤ payload.length := (not_lt.mp hroom).trans (Nat.mod_le ..)
            exact ⟨x, rest, rest', payload, rfl, htag, hlength,
              hsuffix.trans (getTag_suffix htag), hle, rfl, rfl⟩
          · cases h

/-- Whatever the octets are: the payload that is reported lies inside the buffer. -/
theorem getNext_inside {buf : Bytes} {hdr : Hdr} (h : getNext buf = some hdr) :
    hdr.payload + hdr.length ≤ buf.length := by
  obtain ⟨x, rest, rest', payload, rfl, -, -, hsuffix, hroom, hpayload, -⟩ := getNext_cases h
  have hle := hsuffix.length_le
  rw [hpayload, List.length_cons]
  omega

/-! ### Integers -/

theorem foldl_shiftIn (bs : Bytes) (value : ℤ) :
    Int.bmod (bs.foldl shiftIn value) (2 ^ 32) =
      Int.bmod (value * 256 ^ bs.length + bs.beNat) (2 ^ 32) := by
  induction bs generalizing value with
  | nil => simp [beNat]
  | cons x bs ih =>
    rw [List.foldl_cons, ih, shiftIn, beNat, List.length_cons]
    have hsplit : value * 256 ^ (bs.length + 1) + ((x.toNat * 256 ^ bs.length + beNat bs : ℕ) : ℤ) =
        (value * 256 + x.toNat) * 256 ^ bs.length + beNat bs := by
      push_cast
      ring
    rw [hsplit, Int.bmod_add_cancel_right, Int.bmod_mul_bmod]

/-- The octets as a two's complement number of 32 bits, whatever the number of octets is. -/
theorem foldl_shiftIn_eq (bs : Bytes) : bs.foldl shiftIn 0 = Int.bmod bs.beNat (2 ^ 32) := by
  have hbounded : ∀ (bs : Bytes) (value : ℤ), Int.bmod value (2 ^ 32) = value →
      Int.bmod (bs.foldl shiftIn value) (2 ^ 32) = bs.foldl shiftIn value := by
    intro bs
    induction bs with
    | nil => exact fun value h => h
    | cons x bs ih => exact fun value _ => ih _ Int.bmod_bmod
  have hvalue := foldl_shiftIn bs 0
  rw [hbounded bs 0 rfl, Int.zero_mul, Int.zero_add] at hvalue
  exact hvalue

theorem leadingZeros_le (n : ℕ) (bs : Bytes) : leadingZeros n bs ≤ n := by
  induction n generalizing bs with
  | zero => exact le_rfl
  | succ n ih =>
    cases bs with
    | nil => exact Nat.zero_le _
    | cons x bs =>
      rw [leadingZeros]
      split
      · exact Nat.succ_le_succ (ih bs)
      · exact Nat.zero_le _

theorem beNat_drop_leadingZeros (n : ℕ) (bs : Bytes) :
    beNat (bs.drop (leadingZeros n bs)) = bs.beNat := by
  induction n generalizing bs with
  | zero => rfl
  | succ n ih =>
    cases bs with
    | nil => rfl
    | cons x bs =>
      rw [leadingZeros]
      split
      · rename_i hx
        rw [List.drop_succ_cons, ih, beNat, hx]
        simp
      · rfl

/-- A value with a short tag and a short length in front of other octets. -/
theorem getNext_short {x : UInt8} {content rest : Bytes} (htag : x.toNat % 32 ≠ 31)
    (hlen : content.length < 128) (hroom : (content ++ rest).length < 2 ^ 32)
    (hder : validDer (x.toNat / 64) (x.toNat / 32 % 2 == 1) (x.toNat % 32) content.length
      (content ++ rest) = true) :
    getNext (x :: UInt8.ofNat content.length :: (content ++ rest)) =
      some ⟨2, x.toNat, x.toNat / 64, x.toNat / 32 % 2 == 1, x.toNat % 32, content.length⟩ := by
  have hbyte : (UInt8.ofNat content.length).toNat = content.length := by
    rw [UInt8.toNat_ofNat']
    omega
  have hlength : getLength (UInt8.ofNat content.length :: (content ++ rest)) =
      some (content.length, content ++ rest) := by
    rw [getLength, hbyte, if_neg (by omega)]
  have hfits : ¬ (content ++ rest).length % 2 ^ 32 < content.length := by
    rw [Nat.mod_eq_of_lt hroom, List.length_append]
    omega
  have hpayload : (x :: UInt8.ofNat content.length :: (content ++ rest)).length -
      (content ++ rest).length = 2 := by
    rw [List.length_cons, List.length_cons]
    omega
  rw [getNext_cons (by rw [getTag, if_neg htag]) hlength, if_neg hfits, if_pos hder, hpayload]

/-- A primitive value of one of the two types with a short length. -/
theorem getNext_small {t : ℕ} (ht : t = tagInteger ∨ t = tagOid) {content : Bytes}
    (hlen : content.length < 128) :
    getNext (UInt8.ofNat t :: UInt8.ofNat content.length :: content) =
      some ⟨2, t, 0, false, t, content.length⟩ := by
  have hroom : (content ++ []).length < 2 ^ 32 := by
    rw [List.append_nil]
    omega
  rcases ht with rfl | rfl
  · have hshort := getNext_short (x := UInt8.ofNat tagInteger) (by decide) hlen hroom rfl
    rwa [List.append_nil] at hshort
  · have hshort := getNext_short (x := UInt8.ofNat tagOid) (by decide) hlen hroom rfl
    rwa [List.append_nil] at hshort

theorem getInteger_eq {buf : Bytes} {hdr : Hdr} (h : getNext buf = some hdr)
    (hlen : 0 < hdr.length ∧ hdr.length ≤ 4) (hcls : hdr.cls = classUniversal)
    (htag : hdr.tag = tagInteger) :
    getInteger buf = some ((buf.slice hdr.payload hdr.length).foldl shiftIn 0,
      hdr.payload + hdr.length) := by
  have hbad : ¬(hdr.length = 0 ∨ ¬(hdr.cls = classUniversal ∧ hdr.tag = tagInteger)) := by
    rintro (hzero | htype)
    · omega
    · exact htype ⟨hcls, htag⟩
  rw [getInteger, h, Option.bind_eq_bind, Option.bind_some, if_neg hbad, if_neg (by omega)]

/-- Every `int` is read as it was written, and the reader ends where the writer ended. -/
theorem getInteger_putInteger {val : ℤ} (h : -2 ^ 31 ≤ val ∧ val < 2 ^ 31) :
    getInteger (putInteger val) = some (val, (putInteger val).length) := by
  set u := (val % 2 ^ 32).toNat with hu
  have hmod : (u : ℤ) = val % 2 ^ 32 := Int.toNat_of_nonneg (Int.emod_nonneg _ (by decide))
  have hlt : u < 256 ^ 4 := by omega
  set zeros := leadingZeros 3 (ofBeNat u 4) with hzeros
  set content := (ofBeNat u 4).drop zeros with hcontent
  have hle : zeros ≤ 3 := leadingZeros_le 3 _
  have hlength : content.length = 4 - zeros := by
    rw [hcontent, List.length_drop, ofBeNat_length]
  have hput : putInteger val =
      UInt8.ofNat tagInteger :: UInt8.ofNat content.length :: content := by
    rw [hlength]
    rfl
  have hvalue : beNat content = u := by
    rw [hcontent, beNat_drop_leadingZeros, beNat_ofBeNat hlt]
  have hslice : slice (UInt8.ofNat tagInteger :: UInt8.ofNat content.length :: content) 2
      content.length = content := List.take_length
  have hnext := getNext_small (Or.inl rfl) (show content.length < 128 by omega)
  have hresult : Int.bmod u (2 ^ 32) = val := by
    rw [Int.bmod_def]
    split <;> omega
  have hshort : 0 < content.length ∧ content.length ≤ 4 := by omega
  rw [hput, getInteger_eq hnext hshort rfl rfl, hslice, foldl_shiftIn_eq, hvalue, hresult]
  exact congrArg (fun n => some (val, n)) (Nat.add_comm 2 content.length)

end Wpa.Asn1
