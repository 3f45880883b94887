import Wpa.Ie.WrappedData
import Wpa.Lib.InPlace
import Wpa.Lib.ReadProg
import Wpa.Rsne.Exact

/-! `wpa_insert_pmkid` in the buffer it is given: the octets behind the PMKID list are moved, and the
length octet of the RSNE and the length of all elements follow. -/

namespace Wpa.Rsne
open Lib Bytes

/-- The loop for the start of the first RSNE, or the end of the elements. -/
def rsneStart (buf : Bytes) (stop : ℕ) : ℕ → ℕ → ReadProg ℤ ℕ
  | 0, _ => ExceptT.mk none
  | fuel + 1, start =>
    if start < stop then do
      let id ← buf.read8 start
      if id = eidRsn then return start
      else do
        let len ← buf.read8 (start + 1)
        rsneStart buf stop fuel (start + 2 + len)
    else return start

/-- `start[1] += n`. -/
def addLen (buf : Bytes) (start : ℕ) (n : ℤ) : Option Bytes := do
  let len ← buf.read8 (start + 1)
  buf.store (start + 1) [UInt8.ofNat ((len + n) % 256).toNat]

structure PmkidPos where
  buf : Bytes
  rpos : ℕ
  rend : ℕ
  added : ℕ

/-- From the end of the AKM suite list to the PMKID Count, with RSN Capabilities added if there are
none. -/
def skipCapabilities (buf : Bytes) (stop start rpos rend : ℕ) : ReadProg ℤ PmkidPos :=
  if rpos = rend then do
    let buf ← buf.move (rpos + 2) rpos stop
    let buf ← buf.store rpos [0, 0]
    let buf ← addLen buf start 2
    return ⟨buf, rpos + 2, rpos + 2, 2⟩
  else if rpos + 2 > rend then throw (-1)
  else return ⟨buf, rpos + 2, rend, 0⟩

def addPmkidList (stop start : ℕ) (pmkid : Bytes) (p : PmkidPos) : ReadProg ℤ (Bytes × ℤ) := do
  let buf ← p.buf.move (p.rpos + 2 + pmkidLen) p.rpos (stop + p.added)
  let buf ← buf.store p.rpos (ofLe16 1)
  let buf ← buf.store (p.rpos + 2) pmkid
  let buf ← addLen buf start (2 + pmkidLen)
  return (buf, p.added + (2 + pmkidLen))

def removePmkids (stop start num : ℕ) (p : PmkidPos) : ReadProg ℤ (Bytes × ℤ) :=
  if num ≠ 0 then
    if num * pmkidLen > p.rend - p.rpos - 2 then throw (-1)
    else do
      let buf ← p.buf.move (p.rpos + 2) (p.rpos + 2 + num * pmkidLen) stop
      let buf ← addLen buf start (-(num * pmkidLen))
      return (buf, p.added - num * pmkidLen)
  else return (p.buf, p.added)

def putPmkid (stop start rpos : ℕ) (pmkid buf : Bytes) (added : ℤ) : ReadProg ℤ (Bytes × ℤ) := do
  let buf ← buf.store rpos (ofLe16 1)
  let buf ← buf.move (rpos + 2 + pmkidLen) (rpos + 2) (stop + added).toNat
  let buf ← buf.store (rpos + 2) pmkid
  let buf ← addLen buf start pmkidLen
  return (buf, added + pmkidLen)

def replacePmkids (stop start : ℕ) (pmkid : Bytes) (p : PmkidPos) : ReadProg ℤ (Bytes × ℤ) :=
  if p.rend - p.rpos < 2 then throw (-1)
  else do
    let num ← p.buf.readLe16 p.rpos
    let (buf, added) ← removePmkids stop start num p
    putPmkid stop start p.rpos pmkid buf added

/-- The buffer and `*ies_len` afterwards; the elements are the first `iesLen` octets of `buf`. -/
def wpaInsertPmkidInPlace (buf : Bytes) (iesLen : ℕ) (pmkid : Bytes) :
    ReadProg ℤ (Bytes × ℤ) := do
  let start ← rsneStart buf iesLen (iesLen + 1) 0
  if start ≥ iesLen then throw (-1)
  else do
    let len ← buf.read8 (start + 1)
    let rpos := start + 2 + (2 + 4)
    let pairwise ← buf.readLe16 rpos
    let rpos := rpos + (2 + pairwise * rsnSelectorLen)
    let akms ← buf.readLe16 rpos
    let rpos := rpos + (2 + akms * rsnSelectorLen)
    let p ← skipCapabilities buf iesLen start rpos (start + 2 + len)
    let (buf, added) ←
      if p.rpos = p.rend then addPmkidList iesLen start pmkid p
      else replacePmkids iesLen start pmkid p
    return (buf, iesLen + added)

/-- An RSNE through its AKM suite list. -/
structure RsneHead where
  group : ℕ
  pairwise : List ℕ
  akms : List ℕ
  group_lt : group < 2 ^ 32
  group_valid : wpaCipherValidGroup (rsnSelectorToBitfield group)
  pairwise_ne : pairwise ≠ []
  pairwise_lt : ∀ s ∈ pairwise, s < 2 ^ 32
  pairwise_valid : ∀ s ∈ pairwise, rsnSelectorToBitfield s ≠ cipherAes128Cmac
  akms_ne : akms ≠ []
  akms_lt : ∀ s ∈ akms, s < 2 ^ 32

namespace RsneHead

/-- The fields behind the version. -/
def fields (h : RsneHead) : Bytes := ofBeNat h.group 4 ++ (counted h.pairwise ++ counted h.akms)

/-- The length of the RSNE that `rest` completes. -/
def len (h : RsneHead) (rest : Bytes) : ℕ := h.fields.length + rest.length + 2

def rsne (h : RsneHead) (rest : Bytes) : Bytes :=
  [UInt8.ofNat eidRsn, UInt8.ofNat (h.len rest)] ++ (ofLe16 rsnVersion ++ (h.fields ++ rest))

end RsneHead

/-- What becomes of the octets behind the AKM suite list. -/
inductive Rewrites (pmkid : Bytes) : Bytes → Bytes → Prop
  | bare : Rewrites pmkid [] ([0, 0] ++ (ofLe16 1 ++ pmkid))
  | capabilities (capab : Bytes) (hlen : capab.length = 2) :
      Rewrites pmkid capab (capab ++ (ofLe16 1 ++ pmkid))
  | list (capab old rest : Bytes) (num : ℕ) (hlen : capab.length = 2) (hnum : num < 65536)
      (hold : old.length = num * pmkidLen) :
      Rewrites pmkid (capab ++ (ofLe16 num ++ (old ++ rest)))
        (capab ++ (ofLe16 1 ++ (pmkid ++ rest)))

section InPlace
variable {h : RsneHead} {pre capab rest post room pmkid buf : Bytes} {m m' stop : ℕ}

/-- A buffer with the RSNE behind `pre`, whose length octet is `m`. -/
def holds (pre : Bytes) (h : RsneHead) (m : ℕ) (x : Bytes) : Bytes :=
  pre ++ ([UInt8.ofNat eidRsn, UInt8.ofNat m] ++ (ofLe16 rsnVersion ++ (h.fields ++ x)))

/-- Where the fields behind the AKM suite list start. -/
def afterAkms (pre : Bytes) (h : RsneHead) : ℕ := pre.length + 4 + h.fields.length

theorem holds_append (pre : Bytes) (h : RsneHead) (m : ℕ) (x y : Bytes) :
    holds pre h m (x ++ y) = holds pre h m x ++ y := by
  simp only [holds, List.append_assoc]

theorem holds_length (pre : Bytes) (h : RsneHead) (m : ℕ) (x : Bytes) :
    (holds pre h m x).length = afterAkms pre h + x.length := by
  simp only [holds, afterAkms, List.length_append, List.length_cons, List.length_nil, ofLe16_length]
  omega

theorem read_len (pre : Bytes) (h : RsneHead) (m : ℕ) (x : Bytes) :
    (holds pre h m x).read8 (pre.length + 1) = some (m % 256) := by
  rw [holds, read8_append_right]
  exact congrArg some UInt8.toNat_ofNat

theorem addLen_holds {n : ℤ} {x : Bytes} (m' : ℕ) (hn : (m : ℤ) + n = m') :
    addLen (holds pre h m x) pre.length n = some (holds pre h m' x) := by
  have hstored : UInt8.ofNat ((((m % 256 : ℕ) : ℤ) + n) % 256).toNat = UInt8.ofNat m' := by
    have hmod : ((((m % 256 : ℕ) : ℤ) + n) % 256).toNat = m' % 256 := by omega
    rw [hmod]
    exact UInt8.ofNat_mod_size
  simp only [addLen, read_len, Option.bind_eq_bind, Option.bind_some, hstored]
  have hsplit : ∀ k, holds pre h k x = (pre ++ [UInt8.ofNat eidRsn]) ++
      ([UInt8.ofNat k] ++ (ofLe16 rsnVersion ++ (h.fields ++ x))) := by
    intro k
    simp only [holds, List.append_assoc, List.cons_append, List.nil_append]
  have hoff : (pre ++ [UInt8.ofNat eidRsn]).length = pre.length + 1 := by
    rw [List.length_append, List.length_singleton]
  have hone : [UInt8.ofNat m].length = [UInt8.ofNat m'].length := rfl
  rw [store_part (hsplit m) hoff hone, ← hsplit]

theorem skipCapabilities_yields (hstop : stop = afterAkms pre h + rest.length + post.length)
    (hroom : rest = [] → 2 ≤ room.length) :
    Yields (skipCapabilities (holds pre h m (rest ++ (post ++ room))) stop pre.length
      (afterAkms pre h) (afterAkms pre h + rest.length)) fun p =>
        (rest = [] ∧ p = ⟨holds pre h (m + 2) ([0, 0] ++ (post ++ room.drop 2)), afterAkms pre h + 2,
          afterAkms pre h + 2, 2⟩) ∨
        (2 ≤ rest.length ∧ p = ⟨holds pre h m (rest ++ (post ++ room)), afterAkms pre h + 2,
          afterAkms pre h + rest.length, 0⟩) := by
  unfold skipCapabilities
  split
  · rename_i hnone
    have hrest : rest = [] := List.length_eq_zero_iff.mp (by omega)
    subst hrest
    rw [List.nil_append]
    have hbuf : holds pre h m (post ++ room) = holds pre h m [] ++ (post ++ room) :=
      holds_append pre h m [] _
    have hlen : (holds pre h m []).length = afterAkms pre h := holds_length pre h m []
    have hend : afterAkms pre h + post.length = stop := by
      rw [List.length_nil] at hstop
      omega
    obtain ⟨gap, hgap, hmove⟩ := move_up hbuf hlen hend (hroom rfl)
    refine .bind (Q := (· = _)) (.read hmove rfl) ?_
    rintro _ rfl
    refine .bind (Q := (· = _)) (.read (store_part rfl hlen hgap) rfl) ?_
    rintro _ rfl
    rw [← holds_append]
    refine .bind (Q := (· = _)) (.read (addLen_holds (m + 2) (by omega)) rfl) ?_
    rintro _ rfl
    exact .ret (Or.inl ⟨rfl, rfl⟩)
  · rename_i hsome
    split
    · exact .refuse
    · exact .ret (Or.inr ⟨by omega, rfl⟩)

theorem addPmkidList_yields {added rend : ℕ} (hcapab : capab.length = 2)
    (hpmkid : pmkid.length = pmkidLen)
    (hstop : stop + added = afterAkms pre h + 2 + post.length) (hroom : 18 ≤ room.length) :
    Yields (addPmkidList stop pre.length pmkid
      ⟨holds pre h m (capab ++ (post ++ room)), afterAkms pre h + 2, rend, added⟩)
      (· = (holds pre h (m + 18) (capab ++ (ofLe16 1 ++ (pmkid ++ (post ++ room.drop 18)))),
        (added : ℤ) + 18)) := by
  have hlen : (holds pre h m capab).length = afterAkms pre h + 2 := by
    rw [holds_length, hcapab]
  unfold addPmkidList
  obtain ⟨gap, hgap, hmove⟩ := move_up (holds_append pre h m capab _) hlen hstop.symm hroom
  refine .bind (Q := (· = _)) (.read hmove rfl) ?_
  rintro _ rfl
  -- the gap takes the count and the PMKID
  have hsplit : holds pre h m capab ++ (gap ++ (post ++ room.drop 18)) =
      holds pre h m capab ++ (gap.take 2 ++ (gap.drop 2 ++ (post ++ room.drop 18))) := by
    rw [← List.append_assoc (gap.take 2), List.take_append_drop]
  have hcount : (gap.take 2).length = (ofLe16 1).length := by
    rw [List.length_take, hgap, ofLe16_length]
    rfl
  refine .bind (Q := (· = _)) (.read (store_part hsplit hlen hcount) rfl) ?_
  rintro _ rfl
  have hlist : holds pre h m capab ++ (ofLe16 1 ++ (gap.drop 2 ++ (post ++ room.drop 18))) =
      (holds pre h m capab ++ ofLe16 1) ++ (gap.drop 2 ++ (post ++ room.drop 18)) :=
    (List.append_assoc ..).symm
  refine .bind (Q := (· = _)) (.read (store_part hlist ?_ ?_) rfl) ?_
  · rw [List.length_append, hlen, ofLe16_length]
  · rw [List.length_drop, hgap, hpmkid]
    rfl
  rintro _ rfl
  rw [List.append_assoc, ← holds_append]
  refine .bind (Q := (· = _)) (.read (addLen_holds (m + 18) rfl) rfl) ?_
  rintro _ rfl
  exact .ret rfl

theorem removePmkids_yields {num rend : ℕ} {old : Bytes} (hcapab : capab.length = 2)
    (hold : old.length = num * pmkidLen) (hm : num * pmkidLen ≤ m)
    (hstop : stop = afterAkms pre h + 4 + old.length + rest.length + post.length) :
    Yields (removePmkids stop pre.length num
      ⟨holds pre h m (capab ++ (ofLe16 num ++ (old ++ (rest ++ (post ++ room))))),
        afterAkms pre h + 2, rend, 0⟩) fun r => ∃ room' : Bytes,
          room'.length = num * pmkidLen + room.length ∧
          r = (holds pre h (m - num * pmkidLen)
            (capab ++ (ofLe16 num ++ (rest ++ (post ++ room')))), -(num * pmkidLen : ℤ)) := by
  unfold removePmkids
  by_cases hnum : num = 0
  · subst hnum
    have hnil : old = [] := List.length_eq_zero_iff.mp (hold.trans (Nat.zero_mul _))
    rw [hnil, List.nil_append, if_neg (not_not.mpr rfl), Nat.zero_mul, Nat.sub_zero]
    exact .ret ⟨room, (Nat.zero_add _).symm, rfl⟩
  · rw [if_pos hnum]
    split
    · exact .refuse
    have hbuf : holds pre h m (capab ++ (ofLe16 num ++ (old ++ (rest ++ (post ++ room))))) =
        holds pre h m (capab ++ ofLe16 num) ++ (old ++ ((rest ++ post) ++ room)) := by
      rw [← holds_append, List.append_assoc, List.append_assoc]
    have hoff : (holds pre h m (capab ++ ofLe16 num)).length = afterAkms pre h + 2 + 2 := by
      rw [holds_length, List.length_append, hcapab, ofLe16_length]
    have hend : afterAkms pre h + 2 + 2 + num * pmkidLen + (rest ++ post).length = stop := by
      rw [List.length_append]
      omega
    obtain ⟨room', hroom', hmove⟩ := move_down hbuf hoff (by rw [hold]) hend
    refine .bind (Q := (· = _)) (.read hmove rfl) ?_
    rintro _ rfl
    rw [← holds_append]
    refine .bind (Q := (· = _)) (.read (addLen_holds (m - num * pmkidLen) (by omega)) rfl) ?_
    rintro _ rfl
    refine .ret ⟨room', by omega, ?_⟩
    simp only [List.append_assoc, Nat.cast_zero, zero_sub]

theorem putPmkid_yields {num : ℕ} {added : ℤ} (hcapab : capab.length = 2)
    (hpmkid : pmkid.length = pmkidLen)
    (hstop : stop + added = afterAkms pre h + 4 + rest.length + post.length)
    (hroom : 16 ≤ room.length) :
    Yields (putPmkid stop pre.length (afterAkms pre h + 2) pmkid
      (holds pre h m (capab ++ (ofLe16 num ++ (rest ++ (post ++ room))))) added)
      (· = (holds pre h (m + 16)
        (capab ++ (ofLe16 1 ++ (pmkid ++ (rest ++ (post ++ room.drop 16))))), added + 16)) := by
  have hbase : (holds pre h m capab).length = afterAkms pre h + 2 := by
    rw [holds_length, hcapab]
  have hcounted : (holds pre h m (capab ++ ofLe16 1)).length = afterAkms pre h + 2 + 2 := by
    rw [holds_length, List.length_append, hcapab, ofLe16_length]
  have hone : (ofLe16 num).length = (ofLe16 1).length := rfl
  unfold putPmkid
  rw [holds_append]
  refine .bind (Q := (· = _)) (.read (store_part rfl hbase hone) rfl) ?_
  rintro _ rfl
  have hsplit : holds pre h m capab ++ (ofLe16 1 ++ (rest ++ (post ++ room))) =
      holds pre h m (capab ++ ofLe16 1) ++ ((rest ++ post) ++ room) := by
    simp only [holds_append, List.append_assoc]
  have hend : afterAkms pre h + 2 + 2 + (rest ++ post).length = (stop + added).toNat := by
    rw [List.length_append]
    omega
  obtain ⟨gap, hgap, hmove⟩ := move_up hsplit hcounted hend hroom
  refine .bind (Q := (· = _)) (.read hmove rfl) ?_
  rintro _ rfl
  have hfilled : gap.length = pmkid.length := hgap.trans hpmkid.symm
  refine .bind (Q := (· = _)) (.read (store_part rfl hcounted hfilled) rfl) ?_
  rintro _ rfl
  rw [← holds_append]
  refine .bind (Q := (· = _)) (.read (addLen_holds (m + 16) rfl) rfl) ?_
  rintro _ rfl
  refine .ret ?_
  simp only [List.append_assoc]
  rfl

theorem readLe16_part {a x : Bytes} {num off : ℕ} (hnum : num < 65536) (hoff : a.length = off) :
    (a ++ (ofLe16 num ++ x)).readLe16 off = some num := by
  have hread := readLe16_append_right a (ofLe16 num ++ x) 0
  rw [Nat.add_zero, hoff] at hread
  rw [hread, readLe16_eq, le16_ofLe16 hnum]
  rw [List.length_append, ofLe16_length]
  omega

theorem capabilities_count (rest : Bytes) (hfour : 4 ≤ rest.length) : ∃ (capab body : Bytes) (num : ℕ),
    rest = capab ++ (ofLe16 num ++ body) ∧ capab.length = 2 ∧ num < 65536 := by
  refine ⟨rest.take 2, (rest.drop 2).drop 2, le16 (rest.drop 2) 0, ?_, ?_, le16_lt _ _⟩
  · rw [ofLe16_le16, List.take_append_drop]
    rw [List.length_drop]
    omega
  · rw [List.length_take]
    omega

/-- The PMKID list that is there gets the PMKID as its only entry. -/
theorem replacePmkids_yields (htwo : 2 ≤ rest.length) (hpmkid : pmkid.length = pmkidLen)
    (hstop : stop = afterAkms pre h + rest.length + post.length)
    (hroom : ∀ tail, Rewrites pmkid rest tail → tail.length ≤ rest.length + room.length) :
    Yields (replacePmkids stop pre.length pmkid
      ⟨holds pre h (h.len rest) (rest ++ (post ++ room)), afterAkms pre h + 2,
        afterAkms pre h + rest.length, 0⟩) fun r => ∃ tail room' : Bytes, Rewrites pmkid rest tail ∧
          r.1 = holds pre h (h.len tail) (tail ++ (post ++ room')) ∧
          (rest.length : ℤ) + r.2 = tail.length := by
  unfold replacePmkids
  simp only
  split
  · exact .refuse
  rename_i hcount
  obtain ⟨capab, body, num, rfl, hcapab, hnum⟩ :=
    capabilities_count rest (by omega)
  have hlist : (capab ++ (ofLe16 num ++ body)).length = 4 + body.length := by
    simp only [List.length_append, hcapab, ofLe16_length]
    omega
  have hrpos : (holds pre h (h.len (capab ++ (ofLe16 num ++ body))) capab).length =
      afterAkms pre h + 2 := by
    rw [holds_length, hcapab]
  refine .bind (Q := (num = ·)) (.read ?_ rfl) ?_
  · simp only [List.append_assoc]
    rw [holds_append]
    exact readLe16_part hnum hrpos
  rintro _ rfl
  by_cases hfits : num * pmkidLen ≤ body.length
  · obtain ⟨old, tail, rfl, hold⟩ : ∃ old tail : Bytes, body = old ++ tail ∧
        old.length = num * pmkidLen :=
      ⟨body.take (num * pmkidLen), body.drop (num * pmkidLen), (List.take_append_drop ..).symm,
        List.length_take_of_le hfits⟩
    have hbody : (old ++ tail).length = old.length + tail.length := List.length_append
    rw [hbody] at hlist
    have hlen : h.len (capab ++ (ofLe16 num ++ (old ++ tail))) =
        h.fields.length + (4 + (old.length + tail.length)) + 2 := by
      rw [RsneHead.len, hlist]
    have hend : stop = afterAkms pre h + 4 + old.length + tail.length + post.length := by
      rw [hstop, hlist]
      omega
    have hremoved := @removePmkids_yields h pre capab tail post room _ stop num
      (afterAkms pre h + (capab ++ (ofLe16 num ++ (old ++ tail))).length) old hcapab hold
      (by omega : num * pmkidLen ≤ h.len (capab ++ (ofLe16 num ++ (old ++ tail)))) hend
    simp only [List.append_assoc] at hremoved ⊢
    refine hremoved.bind ?_
    rintro _ ⟨room', hroom', rfl⟩
    have hgap : 16 ≤ room'.length := by
      have hfits' := hroom _ (.list capab old tail num hcapab hnum hold)
      simp only [List.length_append, hcapab, ofLe16_length, hpmkid, pmkidLen] at hfits' hold hroom'
      omega
    refine (putPmkid_yields hcapab hpmkid (by omega) hgap).mono ?_
    rintro _ rfl
    refine ⟨_, room'.drop 16, .list capab old tail num hcapab hnum hold, ?_, ?_⟩
    · have htail : h.len (capab ++ (ofLe16 1 ++ (pmkid ++ tail))) =
          h.len (capab ++ (ofLe16 num ++ (old ++ tail))) - num * pmkidLen + 16 := by
        rw [hlen, RsneHead.len]
        simp only [List.length_append, hcapab, ofLe16_length, hpmkid, pmkidLen] at hold ⊢
        omega
      rw [htail]
      simp only [List.append_assoc]
    · simp only [List.length_append, hcapab, ofLe16_length, hpmkid, hold, pmkidLen]
      omega
  · have hrefused : removePmkids stop pre.length num
        ⟨holds pre h (h.len (capab ++ (ofLe16 num ++ body)))
          (capab ++ (ofLe16 num ++ body) ++ (post ++ room)), afterAkms pre h + 2,
          afterAkms pre h + (capab ++ (ofLe16 num ++ body)).length, 0⟩ = throw (-1) := by
      have hne : num ≠ 0 := by
        rintro rfl
        exact hfits ((Nat.zero_mul _).trans_le (Nat.zero_le _))
      unfold removePmkids
      rw [if_pos hne, if_pos]
      simp only [hlist]
      omega
    rw [hrefused]
    exact .bind (Q := fun _ => False) .refuse fun _ hfalse => hfalse.elim

/-- The RSNE is found behind elements that are none. -/
theorem rsneStart_holds {xs : List (ℕ × Bytes)} {x before : Bytes} {fuel : ℕ}
    (hxs : ∀ e ∈ xs, e.1 ≠ eidRsn ∧ e.1 < 256 ∧ e.2.length < 256)
    (hstop : before.length + (Ie.encode xs).length < stop) (hfuel : xs.length < fuel) :
    Yields (rsneStart (before ++ holds (Ie.encode xs) h m x) stop fuel before.length)
      (· = before.length + (Ie.encode xs).length) := by
  induction xs generalizing before fuel with
  | nil =>
    cases fuel with
    | zero => exact absurd hfuel (Nat.not_lt_zero _)
    | succ fuel =>
      have hread := read8_append_right before (holds (Ie.encode []) h m x) 0
      rw [Nat.add_zero] at hread
      rw [rsneStart, if_pos (lt_of_le_of_lt (Nat.le_add_right _ _) hstop)]
      refine .bind (Q := (eidRsn = ·)) (.read hread rfl) ?_
      rintro _ rfl
      rw [if_pos rfl]
      exact .ret rfl
  | cons e xs ih =>
    obtain ⟨⟨hid, hid_lt, hlen_lt⟩, hrest⟩ := List.forall_mem_cons.mp hxs
    cases fuel with
    | zero => exact absurd hfuel (Nat.not_lt_zero _)
    | succ fuel =>
      have hencode := Ie.encode_cons e xs
      have hlength := Ie.length_encode_cons e xs
      have hsplit : before ++ holds (Ie.encode (e :: xs)) h m x =
          (before ++ ([UInt8.ofNat e.1, UInt8.ofNat e.2.length] ++ e.2)) ++
            holds (Ie.encode xs) h m x := by
        rw [holds, hencode, holds]
        simp only [List.append_assoc]
      have hread : ∀ i, (before ++ holds (Ie.encode (e :: xs)) h m x).read8 (before.length + i) =
          (holds (Ie.encode (e :: xs)) h m x).read8 i := fun i => read8_append_right _ _ i
      have hfirst : (before ++ holds (Ie.encode (e :: xs)) h m x).read8 before.length =
          some e.1 := by
        have hzero := hread 0
        rw [Nat.add_zero] at hzero
        rw [hzero, holds, hencode]
        simp [read8, Nat.mod_eq_of_lt hid_lt]
      have hsecond : (before ++ holds (Ie.encode (e :: xs)) h m x).read8 (before.length + 1) =
          some e.2.length := by
        rw [hread, holds, hencode]
        simp [read8, Nat.mod_eq_of_lt hlen_lt]
      have hnext : (before ++ ([UInt8.ofNat e.1, UInt8.ofNat e.2.length] ++ e.2)).length =
          before.length + 2 + e.2.length := by
        simp only [List.length_append, List.length_cons, List.length_nil]
        omega
      rw [rsneStart, if_pos (by omega)]
      refine .bind (Q := (e.1 = ·)) (.read hfirst rfl) ?_
      rintro _ rfl
      rw [if_neg hid]
      refine .bind (Q := (e.2.length = ·)) (.read hsecond rfl) ?_
      rintro _ rfl
      have hrun := @ih (before ++ ([UInt8.ofNat e.1, UInt8.ofNat e.2.length] ++ e.2)) fuel hrest
        (by omega) (Nat.lt_of_succ_lt_succ hfuel)
      rw [hnext, ← hsplit] at hrun
      refine hrun.mono ?_
      rintro _ rfl
      omega

theorem counted_length (selectors : List ℕ) :
    (counted selectors).length = 2 + selectors.length * rsnSelectorLen := by
  rw [counted, List.length_append, ofLe16_length, List.length_flatMap]
  simp [rsnSelectorLen]

theorem RsneHead.fields_length (h : RsneHead) : h.fields.length =
    4 + (2 + h.pairwise.length * rsnSelectorLen) + (2 + h.akms.length * rsnSelectorLen) := by
  rw [RsneHead.fields, List.length_append, List.length_append, ofBeNat_length, counted_length,
    counted_length]
  omega

theorem RsneHead.counts_lt (h : RsneHead) (hlen : h.len rest < 256) :
    h.pairwise.length < 65536 ∧ h.akms.length < 65536 := by
  have hfields := h.fields_length
  unfold RsneHead.len rsnSelectorLen at *
  omega

theorem read_counted {a x : Bytes} {selectors : List ℕ} {off : ℕ} (hcount : selectors.length < 65536)
    (hoff : a.length = off) : (a ++ (counted selectors ++ x)).readLe16 off = some selectors.length := by
  rw [counted, List.append_assoc]
  exact readLe16_part hcount hoff

theorem read_counts (hpairwise : h.pairwise.length < 65536) (hakms : h.akms.length < 65536)
    (x : Bytes) : (holds pre h m x).readLe16 (pre.length + 2 + (2 + 4)) = some h.pairwise.length ∧
      (holds pre h m x).readLe16 (pre.length + 2 + (2 + 4) +
        (2 + h.pairwise.length * rsnSelectorLen)) = some h.akms.length := by
  have hsplit : holds pre h m x = (pre ++ ([UInt8.ofNat eidRsn, UInt8.ofNat m] ++
      (ofLe16 rsnVersion ++ ofBeNat h.group 4))) ++ (counted h.pairwise ++ (counted h.akms ++ x)) := by
    simp only [holds, RsneHead.fields, List.append_assoc]
  have hstart : (pre ++ ([UInt8.ofNat eidRsn, UInt8.ofNat m] ++
      (ofLe16 rsnVersion ++ ofBeNat h.group 4))).length = pre.length + 2 + (2 + 4) := by
    simp only [List.length_append, List.length_cons, List.length_nil, ofLe16_length,
      ofBeNat_length]
  rw [hsplit]
  constructor
  · exact read_counted hpairwise hstart
  · rw [← List.append_assoc]
    apply read_counted hakms
    rw [List.length_append, hstart, counted_length]

/-- For every RSNE behind other elements, with whatever behind it. -/
theorem wpaInsertPmkidInPlace_yields {xs : List (ℕ × Bytes)}
    (hxs : ∀ e ∈ xs, e.1 ≠ eidRsn ∧ e.1 < 256 ∧ e.2.length < 256)
    (hpmkid : pmkid.length = pmkidLen) (hlen : h.len rest < 256)
    (hroom : ∀ tail, Rewrites pmkid rest tail → tail.length ≤ rest.length + room.length) :
    Yields (wpaInsertPmkidInPlace (Ie.encode xs ++ (h.rsne rest ++ (post ++ room)))
      (Ie.encode xs ++ (h.rsne rest ++ post)).length pmkid) fun r =>
        ∃ tail room' : Bytes, Rewrites pmkid rest tail ∧
          r = (Ie.encode xs ++ (h.rsne tail ++ (post ++ room')),
            ((Ie.encode xs ++ (h.rsne tail ++ post)).length : ℤ)) := by
  have hrsne : ∀ y z : Bytes, Ie.encode xs ++ (h.rsne y ++ z) =
      holds (Ie.encode xs) h (h.len y) (y ++ z) := by
    intro y z
    simp only [RsneHead.rsne, holds, List.append_assoc]
  simp only [hrsne, holds_length, List.length_append]
  have hcount := Ie.length_le_length_encode xs
  have hfields := h.fields_length
  have hbase : afterAkms (Ie.encode xs) h = (Ie.encode xs).length + 4 + h.fields.length := rfl
  have hsmall := h.counts_lt hlen
  generalize hstop : afterAkms (Ie.encode xs) h + (rest.length + post.length) = stop
  unfold wpaInsertPmkidInPlace
  have hstart := @rsneStart_holds h (h.len rest) stop xs (rest ++ (post ++ room)) [] (stop + 1) hxs
    (by rw [List.length_nil]; omega) (by omega)
  rw [List.nil_append, List.length_nil, Nat.zero_add] at hstart
  refine hstart.bind ?_
  rintro _ rfl
  rw [if_neg (by omega)]
  obtain ⟨hpairwise, hakms⟩ := @read_counts h (Ie.encode xs) (h.len rest) hsmall.1 hsmall.2
    (rest ++ (post ++ room))
  refine .bind (Q := (h.len rest = ·)) (.read ?_ rfl) ?_
  · rw [read_len, Nat.mod_eq_of_lt hlen]
  rintro _ rfl
  simp only
  refine .bind (Q := (h.pairwise.length = ·)) (.read hpairwise rfl) ?_
  rintro _ rfl
  refine .bind (Q := (h.akms.length = ·)) (.read hakms rfl) ?_
  rintro _ rfl
  have hrpos : (Ie.encode xs).length + 2 + (2 + 4) + (2 + h.pairwise.length * rsnSelectorLen) +
      (2 + h.akms.length * rsnSelectorLen) = afterAkms (Ie.encode xs) h := by
    omega
  have hrend : (Ie.encode xs).length + 2 + h.len rest =
      afterAkms (Ie.encode xs) h + rest.length := by
    unfold RsneHead.len
    omega
  rw [hrpos, hrend]
  have hbare : rest = [] → 20 ≤ room.length := by
    rintro rfl
    have hfits := hroom _ .bare
    simp only [List.length_append, List.length_cons, List.length_nil, ofLe16_length, hpmkid,
      pmkidLen] at hfits
    omega
  refine (skipCapabilities_yields (by omega) fun hnil => by have := hbare hnil; omega).bind ?_
  rintro _ (⟨rfl, rfl⟩ | ⟨htwo, rfl⟩)
  · -- neither capabilities nor a list: both are added
    rw [if_pos rfl]
    have hroom' : 18 ≤ (room.drop 2).length := by
      have htwenty := hbare rfl
      rw [List.length_drop]
      omega
    have hstop' : stop + 2 = afterAkms (Ie.encode xs) h + 2 + post.length := by
      rw [List.length_nil] at hstop
      omega
    refine .bind (addPmkidList_yields (show List.length [0, 0] = 2 from rfl) hpmkid hstop' hroom') ?_
    rintro _ rfl
    refine .ret ⟨_, (room.drop 2).drop 18, .bare, ?_⟩
    have htail : h.len ([0, 0] ++ (ofLe16 1 ++ pmkid)) = h.len [] + 2 + 18 := by
      simp only [RsneHead.len, List.length_append, List.length_cons, List.length_nil,
        ofLe16_length, hpmkid, pmkidLen]
    rw [htail, Prod.mk.injEq]
    constructor
    · simp only [List.append_assoc]
    · simp only [List.length_append, List.length_cons, List.length_nil, ofLe16_length, hpmkid,
        pmkidLen] at hstop ⊢
      omega
  · by_cases hnone : rest.length = 2
    · -- capabilities only: a list is added
      rw [if_pos (by rw [hnone])]
      have hstop' : stop + 0 = afterAkms (Ie.encode xs) h + 2 + post.length := by omega
      have hroom' : 18 ≤ room.length := by
        have hfits := hroom _ (.capabilities rest hnone)
        simp only [List.length_append, ofLe16_length, hpmkid, pmkidLen] at hfits
        omega
      refine .bind (addPmkidList_yields hnone hpmkid hstop' hroom') ?_
      rintro _ rfl
      refine .ret ⟨_, room.drop 18, .capabilities rest hnone, ?_⟩
      have htail : h.len (rest ++ (ofLe16 1 ++ pmkid)) = h.len rest + 18 := by
        simp only [RsneHead.len, List.length_append, ofLe16_length, hpmkid, pmkidLen]
        omega
      rw [htail, Prod.mk.injEq]
      constructor
      · simp only [List.append_assoc]
      · simp only [List.length_append, ofLe16_length, hpmkid, pmkidLen]
        omega
    · have hlist : afterAkms (Ie.encode xs) h + 2 ≠ afterAkms (Ie.encode xs) h + rest.length := by
        omega
      rw [if_neg hlist]
      refine (replacePmkids_yields htwo hpmkid (by omega) hroom).bind ?_
      rintro ⟨buf, added⟩ ⟨tail, room', hrewrites, rfl, hadded⟩
      refine .ret ⟨tail, room', hrewrites, ?_⟩
      rw [Prod.mk.injEq]
      refine ⟨rfl, ?_⟩
      simp only at hadded
      omega

end InPlace

section Parse
variable {h : RsneHead} {ie pmkid rest tail r₁ r₂ : Bytes} {d d₁ d₂ : WpaIeData} {c : RsnCursor}

/-- What the parser has after the AKM suite list. -/
def RsneHead.data (h : RsneHead) : WpaIeData where
  groupCipher := rsnSelectorToBitfield h.group
  hasGroup := true
  pairwiseCipher := h.pairwise.foldl (fun acc s => acc ||| rsnSelectorToBitfield s) 0
  hasPairwise := true
  keyMgmt := h.akms.foldl (fun acc s => acc ||| rsnKeyMgmtToBitfield s) 0

/-- The last step of the parser, on the octets that are left for it. -/
def mgmtGroupOf (tail : Bytes) (d : WpaIeData) : Except ℤ WpaIeData :=
  if tail.length ≥ 4 then
    if wpaCipherValidMgmtGroup (rsnSelectorToBitfield (tail.be32 0)) then
      .ok { d with mgmtGroupCipher := rsnSelectorToBitfield (tail.be32 0) }
    else .error (-10)
  else .ok d

theorem rsnIeMgmtGroup_eq (hin : Inside ie c) (hleft : left ie c = tail) :
    rsnIeMgmtGroup ie d c = mgmtGroupOf tail d := by
  have hlen := left_length hin
  rw [hleft] at hlen
  unfold rsnIeMgmtGroup mgmtGroupOf
  rw [hlen, be32_left, hleft]

theorem parse_rsne (hlen : h.len rest < 256) (hcapab : CapabilitiesField h.data rest d₁ r₁)
    (hlist : PmkidField (h.rsne rest).length d₁ r₁ d₂ r₂) :
    wpaParseWpaIeRsn (h.rsne rest) = mgmtGroupOf r₂ d₂ := by
  have hheader : RsnHeader (h.rsne rest) {} (h.fields ++ rest) := by
    have hbody : (h.fields ++ rest).length + 2 = h.len rest := by
      rw [List.length_append, RsneHead.len]
    have hmk := RsnHeader.mk (h.fields ++ rest) (by omega)
    rw [hbody, List.append_assoc] at hmk
    exact hmk
  have hsmall := h.counts_lt hlen
  obtain ⟨c₀, hstart, hin₀, hleft₀⟩ := header_of_rsn hheader
  have hfields : h.fields ++ rest = ofBeNat h.group 4 ++
      (counted h.pairwise ++ (counted h.akms ++ rest)) := by
    simp only [RsneHead.fields, List.append_assoc]
  rw [hfields] at hleft₀
  have hgroup : GroupField {} (ofBeNat h.group 4 ++ (counted h.pairwise ++ (counted h.akms ++ rest)))
      { groupCipher := rsnSelectorToBitfield h.group, hasGroup := true }
      (counted h.pairwise ++ (counted h.akms ++ rest)) :=
    .present h.group _ h.group_lt h.group_valid
  have hpairwise : PairwiseField { groupCipher := rsnSelectorToBitfield h.group, hasGroup := true }
      (counted h.pairwise ++ (counted h.akms ++ rest))
      { h.data with keyMgmt := keyMgmtIeee8021x } (counted h.akms ++ rest) :=
    .present h.pairwise _ _ h.pairwise_ne hsmall.1 h.pairwise_lt (isUnion_foldl _ _)
      h.pairwise_valid
  have hakms : KeyMgmtField { h.data with keyMgmt := keyMgmtIeee8021x } (counted h.akms ++ rest)
      h.data rest :=
    .present h.akms _ _ h.akms_ne hsmall.2 h.akms_lt (isUnion_foldl _ _)
  obtain ⟨c₁, h₁, hin₁, hleft₁⟩ := group_complete hin₀ hleft₀ hgroup
  obtain ⟨c₂, h₂, hin₂, hleft₂⟩ := pairwise_complete hin₁ hleft₁ hpairwise
  obtain ⟨c₃, h₃, hin₃, hleft₃⟩ := keyMgmt_complete hin₂ hleft₂ hakms
  obtain ⟨c₄, h₄, hin₄, hleft₄⟩ := capabilities_complete hin₃ hleft₃ hcapab
  obtain ⟨c₅, h₅, hin₅, hleft₅⟩ := pmkid_complete hin₄ hleft₄ hlist
  have h₆ := @rsnIeMgmtGroup_eq _ _ d₂ _ hin₅ hleft₅
  rw [wpaParseWpaIeRsn_eq, hstart, ← h₆]
  show fields (h.rsne rest) {} c₀ = _
  simp only [fields, h₁, h₂, h₃, h₄, h₅, bind, Except.bind]

/-- The data with one PMKID, at `pos` of the element. -/
def withPmkid (pos : ℕ) (d : WpaIeData) : WpaIeData := { d with numPmkid := 1, pmkid := some pos }

/-- Where the PMKID is in the new RSNE. -/
def RsneHead.pmkidPos (h : RsneHead) : ℕ := 4 + h.fields.length + 2 + 2

theorem mgmtGroupOf_withPmkid {pos : ℕ} (h : d₂ = withPmkid pos d₁) :
    mgmtGroupOf tail d₂ = (mgmtGroupOf tail d₁).map (withPmkid pos) := by
  subst h
  unfold mgmtGroupOf
  split_ifs <;> rfl

theorem rsne_length (h : RsneHead) (rest : Bytes) : (h.rsne rest).length = h.len rest + 2 := by
  simp only [RsneHead.rsne, RsneHead.len, List.length_append, List.length_cons, List.length_nil,
    ofLe16_length]
  omega

/-- An RSNE with capabilities and a PMKID list. -/
theorem parse_listed {capab old after : Bytes} {num : ℕ} (hcapab : capab.length = 2)
    (hnum : num < 65536) (hold : old.length = num * pmkidLen)
    (hlen : h.len (capab ++ (ofLe16 num ++ (old ++ after))) < 256) :
    wpaParseWpaIeRsn (h.rsne (capab ++ (ofLe16 num ++ (old ++ after)))) = mgmtGroupOf after
      { h.data with
        capabilities := capab.le16 0, numPmkid := num, pmkid := some h.pmkidPos } := by
  have hspell : ofLe16 (capab.le16 0) = capab := by
    have hread := ofLe16_le16 hcapab.ge
    rw [List.drop_of_length_le hcapab.le, List.append_nil] at hread
    exact hread
  have hpos : (h.rsne (capab ++ (ofLe16 num ++ (old ++ after)))).length - (old ++ after).length =
      h.pmkidPos := by
    rw [rsne_length, RsneHead.len, RsneHead.pmkidPos]
    simp only [List.length_append, hcapab, ofLe16_length]
    omega
  have hfield : CapabilitiesField h.data (ofLe16 (capab.le16 0) ++ (ofLe16 num ++ (old ++ after)))
      { h.data with capabilities := capab.le16 0 } (ofLe16 num ++ (old ++ after)) :=
    .present _ _ (le16_lt _ _)
  rw [hspell] at hfield
  rw [parse_rsne hlen hfield (.present old after num hnum hold), hpos]

theorem parse_bare (hlen : h.len [] < 256) : wpaParseWpaIeRsn (h.rsne []) = .ok h.data :=
  parse_rsne hlen (.absent [] (by decide)) (.absent [] (by decide))

theorem parse_capabilities {capab : Bytes} (hcapab : capab.length = 2) (hlen : h.len capab < 256) :
    wpaParseWpaIeRsn (h.rsne capab) = .ok { h.data with capabilities := capab.le16 0 } := by
  have hread := ofLe16_le16 hcapab.ge
  rw [List.drop_of_length_le hcapab.le] at hread
  have hfield : CapabilitiesField h.data (ofLe16 (capab.le16 0) ++ [])
      { h.data with capabilities := capab.le16 0 } [] :=
    .present _ _ (le16_lt _ _)
  rw [hread] at hfield
  exact parse_rsne hlen hfield (.absent [] (by decide))

/-- The new RSNE says what the old one did, but for the PMKID list. -/
theorem parse_rewritten (hrewrites : Rewrites pmkid rest tail) (hpmkid : pmkid.length = pmkidLen)
    (hlen : h.len rest < 256) (hfits : h.len tail < 256) :
    wpaParseWpaIeRsn (h.rsne tail) =
      (wpaParseWpaIeRsn (h.rsne rest)).map (withPmkid h.pmkidPos) := by
  have hone : pmkid.length = 1 * pmkidLen := hpmkid.trans (Nat.one_mul _).symm
  cases hrewrites with
  | bare =>
    have hnew := @parse_listed h [0, 0] pmkid [] 1 rfl (by decide) hone
    rw [List.append_nil] at hnew
    rw [parse_bare hlen, hnew hfits]
    rfl
  | capabilities capab hcapab =>
    have hnew := @parse_listed h rest pmkid [] 1 hcapab (by decide) hone
    rw [List.append_nil] at hnew
    rw [parse_capabilities hcapab hlen, hnew hfits]
    rfl
  | list capab old after num hcapab hnum hold =>
    rw [parse_listed hcapab hnum hold hlen, parse_listed hcapab (by decide) hone hfits]
    exact mgmtGroupOf_withPmkid rfl

theorem rewritten_slice (hrewrites : Rewrites pmkid rest tail) (hpmkid : pmkid.length = pmkidLen) :
    (h.rsne tail).slice h.pmkidPos pmkidLen = pmkid := by
  obtain ⟨capab, after, rfl, hcapab⟩ : ∃ capab after : Bytes,
      tail = capab ++ (ofLe16 1 ++ (pmkid ++ after)) ∧ capab.length = 2 := by
    cases hrewrites with
    | bare => exact ⟨[0, 0], [], by rw [List.append_nil], rfl⟩
    | capabilities capab hcapab => exact ⟨rest, [], by rw [List.append_nil], hcapab⟩
    | list capab old after num hcapab hnum hold => exact ⟨capab, after, rfl, hcapab⟩
  have hsplit : h.rsne (capab ++ (ofLe16 1 ++ (pmkid ++ after))) =
      ([UInt8.ofNat eidRsn, UInt8.ofNat (h.len (capab ++ (ofLe16 1 ++ (pmkid ++ after))))] ++
        (ofLe16 rsnVersion ++ (h.fields ++ (capab ++ ofLe16 1)))) ++ (pmkid ++ after) := by
    simp only [RsneHead.rsne, List.append_assoc]
  apply slice_part hsplit _ hpmkid
  simp only [RsneHead.pmkidPos, List.length_append, List.length_cons, List.length_nil,
    ofLe16_length, hcapab]
  omega

theorem rewritten_length (hrewrites : Rewrites pmkid rest tail) (hpmkid : pmkid.length = pmkidLen) :
    tail.length ≤ rest.length + 20 := by
  unfold pmkidLen at hpmkid
  cases hrewrites with
  | bare => simp [hpmkid]
  | capabilities capab hcapab => simp [hpmkid]
  | list capab old after num hcapab hnum hold =>
    simp [hcapab, hpmkid]
    omega

/-- The elements other than the RSNE stay as they are. The RSNE has the PMKID as its only one, and
says otherwise what it said before; one whose group management cipher is refused stays so. -/
theorem wpaInsertPmkidInPlace_rewrites (xs : List (ℕ × Bytes))
    (hxs : ∀ e ∈ xs, e.1 ≠ eidRsn ∧ e.1 < 256 ∧ e.2.length < 256) (h : RsneHead)
    (rest post room pmkid : Bytes) (hlen : h.len rest < 256) (hpmkid : pmkid.length = pmkidLen)
    (hroom : ∀ tail, Rewrites pmkid rest tail → tail.length ≤ rest.length + room.length) :
    ∃ r, (wpaInsertPmkidInPlace (Ie.encode xs ++ (h.rsne rest ++ (post ++ room)))
        (Ie.encode xs ++ (h.rsne rest ++ post)).length pmkid).run = some r ∧
      ∀ buf (iesLen : ℤ), r = .ok (buf, iesLen) →
        h.len rest + (iesLen - (Ie.encode xs ++ (h.rsne rest ++ post)).length) < 256 →
        ∃ tail, iesLen = (Ie.encode xs ++ (h.rsne tail ++ post)).length ∧
          buf.take iesLen.toNat = Ie.encode xs ++ (h.rsne tail ++ post) ∧
          iesLen ≤ (Ie.encode xs ++ (h.rsne rest ++ post)).length + 20 ∧ h.len tail < 256 ∧
          (h.rsne tail).slice h.pmkidPos pmkidLen = pmkid ∧
          wpaParseWpaIeRsn (h.rsne tail) =
            (wpaParseWpaIeRsn (h.rsne rest)).map (withPmkid h.pmkidPos) := by
  obtain ⟨r, hrun, hresult⟩ := wpaInsertPmkidInPlace_yields hxs hpmkid hlen hroom
  refine ⟨r, hrun, fun buf iesLen hok hshort => ?_⟩
  obtain ⟨tail, room', hrewrites, hboth⟩ := hresult _ hok
  obtain ⟨rfl, rfl⟩ := Prod.mk.inj hboth
  have hgrowth := rewritten_length hrewrites hpmkid
  simp only [List.length_append, rsne_length] at hshort
  have hfits : h.len tail < 256 := by
    unfold RsneHead.len at *
    omega
  refine ⟨tail, rfl, ?_, ?_, hfits, rewritten_slice hrewrites hpmkid,
    parse_rewritten hrewrites hpmkid hlen hfits⟩
  · have hsplit : Ie.encode xs ++ (h.rsne tail ++ (post ++ room')) =
        (Ie.encode xs ++ (h.rsne tail ++ post)) ++ room' := by
      simp only [List.append_assoc]
    rw [Int.toNat_natCast, hsplit]
    exact List.take_left' rfl
  · simp only [List.length_append, rsne_length]
    unfold RsneHead.len
    omega

/-- CCMP and PSK. -/
def pskHead : RsneHead where
  group := 0x000fac04
  pairwise := [0x000fac04]
  akms := [0x000fac02]
  group_lt := by decide
  group_valid := by decide
  pairwise_ne := List.cons_ne_nil _ _
  pairwise_lt := by decide
  pairwise_valid := by decide
  akms_ne := List.cons_ne_nil _ _
  akms_lt := by decide

/-- RSN Capabilities, a PMKID and the group management cipher `cipher`. -/
def listedTail (pmkid : Bytes) (cipher : ℕ) : Bytes :=
  [0x80, 0] ++ (ofLe16 1 ++ (pmkid ++ ofBeNat cipher 4))

def oldPmkid : Bytes := List.replicate pmkidLen 1

def newPmkid : Bytes := List.replicate pmkidLen 2

/-- The RSNE between two other elements. -/
def pskElements (rest : Bytes) : Bytes :=
  Ie.encode [(eidSuppRates, [2])] ++ (pskHead.rsne rest ++ [54, 1, 0])

theorem pskElements_rewritten :
    ∃ r, (wpaInsertPmkidInPlace (Ie.encode [(eidSuppRates, [2])] ++
          (pskHead.rsne (listedTail oldPmkid 0x000fac06) ++ ([54, 1, 0] ++ zeros 20)))
        (pskElements (listedTail oldPmkid 0x000fac06)).length newPmkid).run = some r ∧
      ∀ buf (iesLen : ℤ), r = .ok (buf, iesLen) →
        pskHead.len (listedTail oldPmkid 0x000fac06) +
          (iesLen - (pskElements (listedTail oldPmkid 0x000fac06)).length) < 256 →
        ∃ tail, iesLen = (pskElements tail).length ∧
          buf.take iesLen.toNat = pskElements tail ∧
          iesLen ≤ (pskElements (listedTail oldPmkid 0x000fac06)).length + 20 ∧
          pskHead.len tail < 256 ∧
          (pskHead.rsne tail).slice pskHead.pmkidPos pmkidLen = newPmkid ∧
          wpaParseWpaIeRsn (pskHead.rsne tail) =
            (wpaParseWpaIeRsn (pskHead.rsne (listedTail oldPmkid 0x000fac06))).map
              (withPmkid pskHead.pmkidPos) :=
  wpaInsertPmkidInPlace_rewrites [(eidSuppRates, [2])] (by decide) pskHead _ [54, 1, 0] (zeros 20)
    newPmkid (by decide) rfl fun _ htail => rewritten_length htail rfl

/-- A group management cipher that the parser does not accept: the call succeeds, and the new RSNE is
refused as the old one was. -/
theorem unsupportedMgmtGroup_refused :
    (wpaInsertPmkidInPlace (pskHead.rsne (listedTail oldPmkid 0x000fac04))
      (pskHead.rsne (listedTail oldPmkid 0x000fac04)).length newPmkid).run =
        some (.ok (pskHead.rsne (listedTail newPmkid 0x000fac04),
          ((pskHead.rsne (listedTail newPmkid 0x000fac04)).length : ℤ))) ∧
    wpaParseWpaIeRsn (pskHead.rsne (listedTail newPmkid 0x000fac04)) = .error (-10) := by
  decide +kernel

end Parse

end Wpa.Rsne
