import Wpa.Rsn.Moves

/-! The moves of messages 3/4 and 1/2, the ones that hand keys to the driver. -/

namespace Wpa.Rsn
open Lib Bytes Prog Relation

/-- The octets of a group key for the driver stand in a KDE of the Key Data. -/
def FromKde (keyData : Bytes) (k : SetKey) : Prop :=
  ∃ ie, wpaSupplicantParseIes keyData = some ie ∧
    ((k.kind = .gtk ∧ ∃ g, kde keyData ie.gtk = some g ∧
        (k.key = g.drop 2 ∨ k.key = swapMichael (g.drop 2))) ∨
      (k.kind = .igtk ∧ ∃ g n, kde keyData ie.igtk = some g ∧ k.key = g.slice igtkKdePrefixLen n) ∨
      (k.kind = .bigtk ∧ ∃ g n, kde keyData ie.bigtk = some g ∧
        k.key = g.slice bigtkKdePrefixLen n))

/-- A BIGTK KDE that no check for plaintext stands before: the frame has neither a GTK KDE nor an
IGTK KDE, which RSN only accepts where no group cipher is used. -/
structure PlaintextBigtk (s : Sm) (keyData : Bytes) (k : SetKey) : Prop where
  kind : k.kind = .bigtk
  beaconProt : s.beaconProt
  valid : wpaCipherValidMgmtGroup s.mgmtGroupCipher
  used : s.mgmtGroupCipher ≠ cipherGtkNotUsed
  groupCipher : s.proto = .rsn → s.groupCipher = cipherGtkNotUsed
  kdes : ∃ ie, wpaSupplicantParseIes keyData = some ie ∧ ie.bigtk.isSome ∧ ie.gtk = none ∧
    ie.igtk = none

/-- What is known of a group key when it goes to the driver. -/
structure GroupKey (s : Sm) (key : EapolKey) (keyData : Bytes) (k : SetKey) : Prop where
  kind : k.kind = .gtk ∨ k.kind = .igtk ∨ k.kind = .bigtk
  source : s.proto.isRsnOrOsen → FromKde keyData k
  encrypted : s.proto.isRsnOrOsen →
    key.has keyInfoEncrKeyData ∨ PlaintextBigtk s keyData k

/-- What is known of the pairwise key when it goes to the driver. -/
structure PairwiseKey (s : Sm) (k : SetKey) : Prop where
  installed : s.ptk.installed = false
  kind : k.kind = .ptk
  key : k.key = s.ptk.tk
  length : k.key.length ≠ 0

def keyInfo4Of4 (s : Sm) (key : EapolKey) (ver : ℕ) : ℕ :=
  key.keyInfo &&& keyInfoSecure ||| (ver ||| keyInfoKeyType) ||| protectionBit s.micLen

def keyInfo2Of2 (s : Sm) (key : EapolKey) (ver : ℕ) : ℕ :=
  key.keyInfo &&& keyInfoKeyIndexMask ||| (ver ||| keyInfoSecure) ||| protectionBit s.micLen

/-- Message 3/4 has been accepted under the KCK in use. -/
def Accepted (key : EapolKey) (c : Cfg Sm Act) : Prop :=
  ∃ ptk : Ptk, .accept3Of4 key.keyNonce ptk ∈ c.out ∧ ptk.kck = c.st.ptk.kck

/-- The moves of a message with the given header and Key Data that carries keys. -/
inductive KeyMove (e : Env) (key : EapolKey) (ver : ℕ) (keyData : Bytes) :
    Cfg Sm Act → Cfg Sm Act → Prop
  | base {c c' : Cfg Sm Act} (h : BaseMove e c c') : KeyMove e key ver keyData c c'
  | renewDue {s : Sm} {out : List Act} :
      KeyMove e key ver keyData ⟨s, out⟩ ⟨{ s with renewSnonce := true }, out⟩
  | ftNonce {s : Sm} {out : List Act} (r : Bytes) :
      KeyMove e key ver keyData ⟨s, out⟩ ⟨{ s with snonce := r }, out ++ [.renewSnonce r]⟩
  | installPtk {s : Sm} {out : List Act} (k : SetKey) (hk : PairwiseKey s k) :
      KeyMove e key ver keyData ⟨s, out⟩ ⟨s.ptkInstalled, out ++ [.setKey k]⟩
  | installPtkFailed {s : Sm} {out : List Act} (k : SetKey) (hk : PairwiseKey s k) :
      KeyMove e key ver keyData ⟨s, out⟩
        ⟨disconnect s, out ++ [.setKey k, .deauthenticate reasonUnspecified]⟩
  | activatePtk {s : Sm} {out : List Act} (k : SetKey) (hk : k.kind = .ptkActivate) :
      KeyMove e key ver keyData ⟨s, out⟩ ⟨s, out ++ [.setKey k]⟩
  | groupKey {s : Sm} {out : List Act} (k : SetKey) (gtk gtkWnmSleep igtk igtkWnmSleep bigtk
      bigtkWnmSleep : Bytes) (hk : GroupKey s key keyData k) :
      KeyMove e key ver keyData ⟨s, out⟩
        ⟨{ s with
            gtk := gtk, gtkWnmSleep := gtkWnmSleep, igtk := igtk, igtkWnmSleep := igtkWnmSleep,
            bigtk := bigtk, bigtkWnmSleep := bigtkWnmSleep }, out ++ [.setKey k]⟩
  | completed {s : Sm} {out : List Act} :
      KeyMove e key ver keyData ⟨s, out⟩
        ⟨{ s with wpaState := .completed }, out ++ [.setState .completed]⟩
  | accept {s : Sm} {out : List Act} (h : s.anonce = key.keyNonce) :
      KeyMove e key ver keyData ⟨s, out⟩ ⟨s, out ++ [.accept3Of4 s.anonce s.ptk]⟩
  | mic4Of4 {s : Sm} {out : List Act} (h : Accepted key ⟨s, out⟩) :
      KeyMove e key ver keyData ⟨s, out⟩ ⟨s, out ++ [.mic s.ptk.kck ver
        (replyFrame e s key (keyInfo4Of4 s key ver) (zeros 32) []).write]⟩
  | mic2Of2 {s : Sm} {out : List Act} (oci : Bytes) :
      KeyMove e key ver keyData ⟨s, out⟩ ⟨s, out ++ [.mic s.ptk.kck ver
        (replyFrame e s key (keyInfo2Of2 s key ver) (zeros 32) oci).write]⟩
  | decrypted {s : Sm} {out : List Act} (plain : Bytes) :
      KeyMove e key ver keyData ⟨s, out⟩ ⟨s, out ++ [.decrypted s.ptk.kek plain]⟩

section Keys
variable {e : Env} {key : EapolKey} {ver : ℕ} {keyData : Bytes}

theorem base_keys {α : Type} {x : M α} (hx : Keeps (ReflTransGen (BaseMove e)) x e) :
    Keeps (ReflTransGen (KeyMove e key ver keyData)) x e :=
  base_lift (fun _ _ => KeyMove.base) hx

theorem KeyMove.fixed {c c' : Cfg Sm Act} (h : KeyMove e key ver keyData c c') :
    Frame Sm.fixed (fun a => a.verifies = false) c c' := by
  cases h with
  | base h => exact h.fixed.mono fun _ => And.right
  | renewDue => exact ⟨rfl, [], (List.append_nil _).symm, by simp⟩
  | _ => exact ⟨rfl, _, rfl, by simp [Act.verifies]⟩

theorem keys_fixed {c c' : Cfg Sm Act} (h : ReflTransGen (KeyMove e key ver keyData) c c') :
    Frame Sm.fixed (fun a => a.verifies = false) c c' :=
  path_induction (R := Frame Sm.fixed fun a => a.verifies = false) (fun _ _ => KeyMove.fixed) h

/-- A command that hands over the pairwise key: on success a path of moves, on failure one
together with the disconnection that follows. -/
def PairwiseSpec (e : Env) (key : EapolKey) (ver : ℕ) (keyData : Bytes) (x : M Bool)
    (c : Cfg Sm Act) : Prop :=
  ReflTransGen (KeyMove e key ver keyData) c
    (if (x e c).1 then (x e c).2 else (failed e (x e c).2).2)

theorem PairwiseSpec.pure {b : Bool} (c : Cfg Sm Act) :
    PairwiseSpec e key ver keyData (Pure.pure b) c := by
  cases b with
  | true => exact .refl
  | false => exact base_keys failed_moves c

theorem PairwiseSpec.get {f : Sm → M Bool} {c : Cfg Sm Act}
    (h : PairwiseSpec e key ver keyData (f c.st) c) :
    PairwiseSpec e key ver keyData (Prog.get >>= f) c := h

theorem PairwiseSpec.bind {α : Type} {x : M α} {f : α → M Bool} {c : Cfg Sm Act}
    (hx : ReflTransGen (KeyMove e key ver keyData) c (x e c).2)
    (hf : PairwiseSpec e key ver keyData (f (x e c).1) (x e c).2) :
    PairwiseSpec e key ver keyData (x >>= f) c :=
  hx.trans hf

/-- A first pairwise step that stops the handler when it fails. -/
theorem PairwiseSpec.andThen {x y : M Bool} {c : Cfg Sm Act}
    (hx : PairwiseSpec e key ver keyData x c)
    (hy : (x e c).1 → PairwiseSpec e key ver keyData y (x e c).2) :
    PairwiseSpec e key ver keyData (x >>= fun ok => if ¬ok then Pure.pure false else y) c := by
  unfold PairwiseSpec at hx
  cases hok : (x e c).1 with
  | true =>
    have hy := hy hok
    simp only [hok, if_true] at hx
    simpa only [PairwiseSpec, bind_apply, hok, not_true, if_false] using hx.trans hy
  | false =>
    simp only [hok, Bool.false_eq_true, if_false] at hx
    simpa only [PairwiseSpec, bind_apply, hok, Bool.false_eq_true, not_false_iff, if_true,
      pure_apply, if_false] using hx

/-- The end of a handler whose pairwise part may fail. -/
theorem PairwiseSpec.finish {x : M Bool} {y : M Unit} {c : Cfg Sm Act}
    (hx : PairwiseSpec e key ver keyData x c)
    (hy : Keeps (ReflTransGen (KeyMove e key ver keyData)) y e) :
    ReflTransGen (KeyMove e key ver keyData) c
      ((x >>= fun ok => if ¬ok then failed else y) e c).2 := by
  unfold PairwiseSpec at hx
  cases hok : (x e c).1 with
  | true =>
    simp only [hok, if_true] at hx
    simpa only [bind_apply, hok, not_true, if_false] using hx.trans (hy _)
  | false =>
    simp only [hok, Bool.false_eq_true, if_false] at hx
    simpa only [bind_apply, hok, Bool.false_eq_true, not_false_iff, if_true] using hx

theorem PairwiseSpec.ite {p : Prop} [Decidable p] {x y : M Bool} {c : Cfg Sm Act}
    (hx : p → PairwiseSpec e key ver keyData x c) (hy : ¬p → PairwiseSpec e key ver keyData y c) :
    PairwiseSpec e key ver keyData (if p then x else y) c := by
  split_ifs with h
  · exact hx h
  · exact hy h

theorem handKey_eq (k : SetKey) (tolerated : Bool) (record : Sm → Sm) (c : Cfg Sm Act) :
    handKey k tolerated record e c = (e.setKey k.kind || tolerated,
      ⟨if e.setKey k.kind || tolerated then record c.st else c.st, c.out ++ [.setKey k]⟩) := by
  have hrun : handKey k tolerated record e c =
      (if e.setKey k.kind || tolerated then do
        update record
        pure true
      else pure false : M Bool) e ⟨c.st, c.out ++ [.setKey k]⟩ := rfl
  rw [hrun, Prog.ite_apply]
  split_ifs with hset
  · rw [hset]
    rfl
  · rw [Bool.not_eq_true] at hset
    rw [hset]
    rfl

theorem handPtk_spec {k : SetKey} {c : Cfg Sm Act} (hk : PairwiseKey c.st k) :
    PairwiseSpec e key ver keyData (handKey k false Sm.ptkInstalled) c := by
  rw [PairwiseSpec, handKey_eq]
  split_ifs
  · exact .single (KeyMove.installPtk k hk)
  · have hmove := @KeyMove.installPtkFailed e key ver keyData c.st c.out k hk
    simpa [failed, wpaSmDeauthenticate] using ReflTransGen.single hmove

theorem wpaSupplicantInstallPtk_spec (keyFlag : ℕ) (c : Cfg Sm Act) :
    PairwiseSpec e key ver keyData (wpaSupplicantInstallPtk key keyFlag) c := by
  refine PairwiseSpec.get (.ite (fun _ => .pure c) fun hinst => .ite (fun _ => .pure c) fun _ =>
    .ite (fun _ => .pure c) fun _ => .ite (fun _ => .pure c) fun hlen => ?_)
  rw [not_or, not_not] at hlen
  refine handPtk_spec ⟨by simpa using hinst, rfl, rfl, fun h => ?_⟩
  exact hlen.1 (hlen.2.trans h)

theorem wpaSupplicantInstallPtk_accepted {keyFlag : ℕ} {c : Cfg Sm Act} (h : Accepted key c) :
    Accepted key (wpaSupplicantInstallPtk key keyFlag e c).2 := by
  obtain ⟨ptk, hout, hkck⟩ := h
  have hadd (k : SetKey) : Accepted key (handKey k false Sm.ptkInstalled e c).2 := by
    rw [handKey_eq]
    refine ⟨ptk, List.mem_append_left _ hout, ?_⟩
    split_ifs <;> exact hkck
  simp only [wpaSupplicantInstallPtk, get_bind_apply, Prog.ite_apply]
  split_ifs
  all_goals first | exact ⟨ptk, hout, hkck⟩ | exact hadd _

theorem wpaSupplicantActivatePtk_moves :
    Keeps (ReflTransGen (KeyMove e key ver keyData)) wpaSupplicantActivatePtk e :=
  fun _ => .single (KeyMove.activatePtk _ rfl)

theorem PairwiseSpec.of_moves {x : M Bool}
    (hx : Keeps (ReflTransGen (KeyMove e key ver keyData)) x e) (c : Cfg Sm Act) :
    PairwiseSpec e key ver keyData x c := by
  unfold PairwiseSpec
  split_ifs
  · exact hx c
  · exact (hx c).trans (base_keys failed_moves _)

theorem send4Of4_moves (dst : Bytes) {c : Cfg Sm Act} (hc : Accepted key c) :
    ReflTransGen (KeyMove e key ver keyData) c
      (wpaSupplicantSend4Of4 dst key ver key.keyInfo c.st.ptk e c).2 := by
  simp only [wpaSupplicantSend4Of4, ask_bind_apply, get_bind_apply, Prog.ite_apply]
  split_ifs
  · exact wpaEapolKeySend_moves (fun _ _ => KeyMove.base) fun b =>
      KeyMove.mic4Of4 (s := { c.st with bssid := b }) hc
  · exact .refl

theorem reply4Of4_spec {c : Cfg Sm Act} (hc : Accepted key c) :
    PairwiseSpec e key ver keyData (reply4Of4 key ver) c := by
  refine PairwiseSpec.get (.andThen ?_ fun _ => ?_)
  · unfold PairwiseSpec
    split_ifs
    · exact send4Of4_moves _ hc
    · exact (send4Of4_moves _ hc).trans (base_keys failed_moves _)
  · refine PairwiseSpec.bind (.single KeyMove.renewDue) (.ite (fun _ => ?_) fun _ => .pure _)
    exact .ite (fun _ => .of_moves wpaSupplicantActivatePtk_moves _) fun _ =>
      wpaSupplicantInstallPtk_spec _ _

theorem process3Of4Pairwise_spec {c : Cfg Sm Act} (hc : Accepted key c) :
    PairwiseSpec e key ver keyData (process3Of4Pairwise key ver) c := by
  refine PairwiseSpec.get (.ite (fun _ => .andThen (wpaSupplicantInstallPtk_spec _ _) fun _ => ?_)
    fun _ => reply4Of4_spec hc)
  exact reply4Of4_spec (wpaSupplicantInstallPtk_accepted hc)

/-- Every group key field that a move may record. -/
def GroupUpdate (record : Sm → Sm) : Prop :=
  ∀ s, ∃ gtk gtkWnmSleep igtk igtkWnmSleep bigtk bigtkWnmSleep, record s =
    { s with
      gtk := gtk, gtkWnmSleep := gtkWnmSleep, igtk := igtk, igtkWnmSleep := igtkWnmSleep,
      bigtk := bigtk, bigtkWnmSleep := bigtkWnmSleep }

theorem handGroupKey_moves {k : SetKey} {tolerated : Bool} {record : Sm → Sm} {c : Cfg Sm Act}
    (hk : GroupKey c.st key keyData k) (hrecord : GroupUpdate record) :
    ReflTransGen (KeyMove e key ver keyData) c (handKey k tolerated record e c).2 := by
  rw [handKey_eq]
  refine .single ?_
  split_ifs
  · obtain ⟨gtk, gtkWnmSleep, igtk, igtkWnmSleep, bigtk, bigtkWnmSleep, hr⟩ := hrecord c.st
    simp only [hr]
    exact KeyMove.groupKey k gtk gtkWnmSleep igtk igtkWnmSleep bigtk bigtkWnmSleep hk
  · exact KeyMove.groupKey k c.st.gtk c.st.gtkWnmSleep c.st.igtk c.st.igtkWnmSleep c.st.bigtk
      c.st.bigtkWnmSleep hk

theorem wpaSupplicantInstallGtk_moves {gd : GtkData} {keyRsc : Bytes} {c : Cfg Sm Act}
    (hk : GroupKey c.st key keyData (gtkSetKey c.st gd keyRsc)) :
    ReflTransGen (KeyMove e key ver keyData) c (wpaSupplicantInstallGtk gd keyRsc false e c).2 := by
  unfold wpaSupplicantInstallGtk
  refine path_ite (fun _ => .refl) fun _ => ?_
  exact handGroupKey_moves hk fun s => ⟨_, _, _, _, _, _, rfl⟩

theorem wpaSupplicantInstallIgtk_moves {body : Bytes} {c : Cfg Sm Act}
    (hk : GroupKey c.st key keyData (mgmtSetKey c.st .igtk body
      (body.slice igtkKdePrefixLen (wpaCipherKeyLen c.st.mgmtGroupCipher)))) :
    ReflTransGen (KeyMove e key ver keyData) c (wpaSupplicantInstallIgtk body false e c).2 := by
  unfold wpaSupplicantInstallIgtk
  refine path_ite (fun _ => .refl) fun _ => path_ite (fun _ => .refl) fun _ => ?_
  exact handGroupKey_moves hk fun s => ⟨_, _, _, _, _, _, rfl⟩

theorem wpaSupplicantInstallBigtk_moves {body : Bytes} {c : Cfg Sm Act}
    (hk : GroupKey c.st key keyData (mgmtSetKey c.st .bigtk body
      (body.slice bigtkKdePrefixLen (wpaCipherKeyLen c.st.mgmtGroupCipher)))) :
    ReflTransGen (KeyMove e key ver keyData) c (wpaSupplicantInstallBigtk body false e c).2 := by
  unfold wpaSupplicantInstallBigtk
  refine path_ite (fun _ => .refl) fun _ => path_ite (fun _ => .refl) fun _ => ?_
  exact handGroupKey_moves hk fun s => ⟨_, _, _, _, _, _, rfl⟩

end Keys

theorem gtkSetKey_kind (s : Sm) (gd : GtkData) (keyRsc : Bytes) :
    (gtkSetKey s gd keyRsc).kind = .gtk := by
  unfold gtkSetKey
  dsimp only
  split_ifs <;> rfl

theorem gtkSetKey_key (s : Sm) (gd : GtkData) (keyRsc : Bytes) :
    (gtkSetKey s gd keyRsc).key = gd.gtk ∨ (gtkSetKey s gd keyRsc).key = swapMichael gd.gtk := by
  unfold gtkSetKey
  dsimp only
  split_ifs
  · exact .inr rfl
  · exact .inl rfl
  · exact .inr rfl
  · exact .inl rfl

section GroupKeys
variable {e : Env} {key : EapolKey} {ver : ℕ} {keyData : Bytes} {ie : EapolIeParse}

/-- What the checks of the handlers on plaintext KDEs leave over. -/
structure Checked (key : EapolKey) (keyData : Bytes) (ie : EapolIeParse) : Prop where
  parsed : wpaSupplicantParseIes keyData = some ie
  gtk : ie.gtk.isSome → key.has keyInfoEncrKeyData
  igtk : ie.igtk.isSome → key.has keyInfoEncrKeyData

variable (hck : Checked key keyData ie)
include hck

theorem Checked.gtkKey {s : Sm} {g keyRsc : Bytes} {gd : GtkData}
    (hg : kde keyData ie.gtk = some g) (hgd : gd.gtk = g.drop 2) :
    GroupKey s key keyData (gtkSetKey s gd keyRsc) := by
  refine ⟨.inl (gtkSetKey_kind s gd keyRsc), fun _ => ?_, fun _ => .inl (hck.gtk ?_)⟩
  · have hkey := gtkSetKey_key s gd keyRsc
    rw [hgd] at hkey
    exact ⟨ie, hck.parsed, .inl ⟨gtkSetKey_kind s gd keyRsc, g, hg, hkey⟩⟩
  · unfold kde at hg
    exact Option.isSome_map.symm.trans (Option.isSome_of_eq_some hg)

theorem Checked.igtkKey {s : Sm} {g : Bytes} (hg : kde keyData ie.igtk = some g) (n : ℕ) :
    GroupKey s key keyData (mgmtSetKey s .igtk g (g.slice igtkKdePrefixLen n)) := by
  refine ⟨.inr (.inl rfl), fun _ => ?_, fun _ => .inl (hck.igtk ?_)⟩
  · exact ⟨ie, hck.parsed, .inr (.inl ⟨rfl, g, n, hg, rfl⟩)⟩
  · unfold kde at hg
    exact Option.isSome_map.symm.trans (Option.isSome_of_eq_some hg)

theorem Checked.bigtkKey {s : Sm} {g : Bytes} (hg : kde keyData ie.bigtk = some g) (n : ℕ)
    (hb : s.beaconProt) (hvalid : wpaCipherValidMgmtGroup s.mgmtGroupCipher)
    (hused : s.mgmtGroupCipher ≠ cipherGtkNotUsed)
    (hgtk : ie.gtk = none → s.proto = .rsn → s.groupCipher = cipherGtkNotUsed) :
    GroupKey s key keyData (mgmtSetKey s .bigtk g (g.slice bigtkKdePrefixLen n)) := by
  refine ⟨.inr (.inr rfl), fun _ => ?_, fun _ => ?_⟩
  · exact ⟨ie, hck.parsed, .inr (.inr ⟨rfl, g, n, hg, rfl⟩)⟩
  by_cases hencr : key.has keyInfoEncrKeyData
  · exact .inl hencr
  have hnogtk : ie.gtk = none := Option.not_isSome_iff_eq_none.mp fun h => hencr (hck.gtk h)
  have hnoigtk : ie.igtk = none := Option.not_isSome_iff_eq_none.mp fun h => hencr (hck.igtk h)
  have hkde : ie.bigtk.isSome := by
    unfold kde at hg
    exact Option.isSome_map.symm.trans (Option.isSome_of_eq_some hg)
  exact .inr ⟨rfl, hb, hvalid, hused, hgtk hnogtk, ie, hck.parsed, hkde, hnogtk, hnoigtk⟩

theorem wpaSupplicantPairwiseGtk_moves {g : Bytes} (hg : kde keyData ie.gtk = some g) :
    Keeps (ReflTransGen (KeyMove e key ver keyData)) (wpaSupplicantPairwiseGtk key g) e := by
  intro c
  unfold wpaSupplicantPairwiseGtk
  refine path_ite (fun _ => .refl) fun _ => path_ite (fun _ => .refl) fun _ => ?_
  dsimp only [get_apply]
  cases wpaSupplicantCheckGroupCipher c.st.groupCipher (g.length - 2) (g.length - 2) with
  | none => exact .refl
  | some alg => exact wpaSupplicantInstallGtk_moves (hck.gtkKey hg rfl)

theorem setIgtkKde_moves :
    Keeps (ReflTransGen (KeyMove e key ver keyData)) (setIgtkKde (kde keyData ie.igtk)) e := by
  intro c
  unfold setIgtkKde
  cases hg : kde keyData ie.igtk with
  | none => exact .refl
  | some g =>
    exact path_ite (fun _ => .refl) fun _ => wpaSupplicantInstallIgtk_moves (hck.igtkKey hg _)

theorem setBigtkKde_moves {c : Cfg Sm Act}
    (hvalid : wpaCipherValidMgmtGroup c.st.mgmtGroupCipher)
    (hused : c.st.mgmtGroupCipher ≠ cipherGtkNotUsed)
    (hgtk : ie.gtk = none → c.st.proto = .rsn → c.st.groupCipher = cipherGtkNotUsed) :
    ReflTransGen (KeyMove e key ver keyData) c (setBigtkKde (kde keyData ie.bigtk) e c).2 := by
  unfold setBigtkKde
  cases hg : kde keyData ie.bigtk with
  | none => exact .refl
  | some g =>
    refine path_ite (fun _ => .refl) fun hb => path_ite (fun _ => .refl) fun _ => ?_
    rw [not_not] at hb
    exact wpaSupplicantInstallBigtk_moves (hck.bigtkKey hg _ hb hvalid hused hgtk)

theorem ieee80211wSetKeys_moves {c : Cfg Sm Act}
    (hgtk : ie.gtk = none → c.st.proto = .rsn → c.st.groupCipher = cipherGtkNotUsed) :
    ReflTransGen (KeyMove e key ver keyData) c (ieee80211wSetKeys keyData ie e c).2 := by
  unfold ieee80211wSetKeys
  refine path_ite (fun _ => .refl) fun hcipher => ?_
  rw [not_or, not_not] at hcipher
  have higtk : ReflTransGen (KeyMove e key ver keyData) c _ := setIgtkKde_moves hck c
  have hfix := (keys_fixed higtk).1
  refine path_bind higtk (path_ite (fun _ => ?_) fun _ => .refl)
  have hmgmt := congrArg Fixed.mgmtGroupCipher hfix
  refine setBigtkKde_moves hck ?_ ?_ fun hnone hrsn => ?_
  · exact (congrArg wpaCipherValidMgmtGroup hmgmt).trans hcipher.1
  · exact fun h => hcipher.2 (hmgmt.symm.trans h)
  · exact (congrArg Fixed.groupCipher hfix).trans
      (hgtk hnone ((congrArg Fixed.proto hfix).symm.trans hrsn))

theorem process3Of4Gtk_moves :
    Keeps (ReflTransGen (KeyMove e key ver keyData)) (process3Of4Gtk key (kde keyData ie.gtk)) e := by
  intro c
  unfold process3Of4Gtk
  refine path_ite (fun _ => .refl) fun _ => ?_
  cases hg : kde keyData ie.gtk with
  | none => exact .refl
  | some g => exact wpaSupplicantPairwiseGtk_moves hck hg c

omit hck in
theorem process3Of4Gtk_none {c : Cfg Sm Act} (h : (process3Of4Gtk key none e c).1 = true)
    (hrsn : c.st.proto = .rsn) : c.st.groupCipher = cipherGtkNotUsed := by
  simp only [process3Of4Gtk, get_bind_apply, Prog.ite_apply] at h
  split_ifs at h with hc
  · exact hc
  · simp [hrsn] at h

end GroupKeys
section Message3Of4
variable {e : Env} {key : EapolKey} {ver : ℕ} {keyData : Bytes} {ie : EapolIeParse}

theorem setCompleted_moves :
    Keeps (ReflTransGen (KeyMove e key ver keyData)) (wpaSmSetState .completed) e :=
  fun _ => .single KeyMove.completed

theorem wpaSupplicantKeyNegComplete_moves :
    Keeps (ReflTransGen (KeyMove e key ver keyData)) wpaSupplicantKeyNegComplete e := by
  refine Keeps.bind setCompleted_moves fun _ => Keeps.ask_bind (Keeps.bind Keeps.get fun sm =>
    Keeps.when fun _ => ?_)
  cases e.random with
  | none => exact Keeps.pure _
  | some r => exact fun _ => .single (KeyMove.ftNonce r)

theorem process3Of4Done_moves {gtk : Bool} :
    Keeps (ReflTransGen (KeyMove e key ver keyData)) (process3Of4Done gtk) e := by
  refine Keeps.bind Keeps.get fun sm =>
    Keeps.bind (Keeps.when fun _ => wpaSupplicantKeyNegComplete_moves) fun _ =>
      Keeps.bind Keeps.get fun sm => Keeps.bind (Keeps.when fun _ => ?_) fun _ =>
        base_keys (plain_update fun _ => rfl)
  exact base_keys (Keeps.bind_of pmksaCacheAdd_moves fun c =>
    curPmksa_or_update (.inr (pmksaCacheAdd_entry c)) _)

theorem process3Of4GroupKeys_moves (hck : Checked key keyData ie) :
    Keeps (ReflTransGen (KeyMove e key ver keyData)) (process3Of4GroupKeys key keyData ie) e := by
  refine Keeps.bind (base_keys (wpaSmSetState_moves (by decide))) fun _ c => ?_
  have hgtk : ReflTransGen (KeyMove e key ver keyData) c _ := process3Of4Gtk_moves hck c
  refine path_bind hgtk (path_ite (fun _ => base_keys failed_moves _) fun hok => ?_)
  refine path_bind (ieee80211wSetKeys_moves hck fun hnone hrsn => ?_)
    (path_ite (fun _ => base_keys failed_moves _) fun _ => process3Of4Done_moves _)
  have hfix := (keys_fixed hgtk).1
  rw [not_not, hnone] at hok
  exact (congrArg Fixed.groupCipher hfix).trans
    (process3Of4Gtk_none hok ((congrArg Fixed.proto hfix).symm.trans hrsn))

theorem process3Of4Accepted_moves (hck : Checked key keyData ie) {c : Cfg Sm Act}
    (hanonce : c.st.anonce = key.keyNonce) :
    ReflTransGen (KeyMove e key ver keyData) c (process3Of4Accepted key ver keyData ie e c).2 := by
  unfold process3Of4Accepted
  have hacc : Accepted key ⟨c.st, c.out ++ [.accept3Of4 c.st.anonce c.st.ptk]⟩ := by
    refine ⟨c.st.ptk, List.mem_append_right _ ?_, rfl⟩
    rw [hanonce]
    exact List.mem_singleton_self _
  have haccept : ReflTransGen (KeyMove e key ver keyData) c
      ⟨c.st, c.out ++ [.accept3Of4 c.st.anonce c.st.ptk]⟩ :=
    .single (KeyMove.accept hanonce)
  exact haccept.trans
    (PairwiseSpec.finish (process3Of4Pairwise_spec hacc) (process3Of4GroupKeys_moves hck))

theorem process3Of4Checked_moves (hck : Checked key keyData ie) :
    Keeps (ReflTransGen (KeyMove e key ver keyData)) (process3Of4Checked key ver keyData ie) e := by
  refine Keeps.ask_bind (Keeps.get_bind fun c => ?_)
  refine path_ite (fun _ => base_keys failed_moves c) fun hanonce => ?_
  refine path_ite (fun _ => base_keys failed_moves c) fun _ => ?_
  rw [not_not] at hanonce
  have hip : Keeps (ReflTransGen (KeyMove e key ver keyData)) (Prog.when ie.ipAddrAlloc.isSome
      (update fun sm => { sm with p2pIpAddr := keyData.slice (ie.ipAddrAlloc.getD 0) 12 })) e :=
    Keeps.when fun _ => base_keys (plain_update fun _ => rfl)
  refine path_bind (hip c) (path_ite (fun _ => .refl) fun _ =>
    path_ite (fun _ => base_keys failed_moves _) fun _ => process3Of4Accepted_moves hck ?_)
  rw [when_apply]
  split_ifs <;> exact hanonce

theorem fetchBeaconIe_moves : Keeps (ReflTransGen (BaseMove e)) fetchBeaconIe e := by
  refine Keeps.ask_bind (Keeps.bind Keeps.get fun sm => Keeps.ite (fun _ => ?_) fun _ => Keeps.pure _)
  cases e.beaconIe with
  | none => exact Keeps.pure _
  | some ap => exact Keeps.bind (plain_update fun _ => rfl) fun _ => Keeps.pure _

theorem wpaSupplicantValidateIe_moves :
    Keeps (ReflTransGen (BaseMove e)) (wpaSupplicantValidateIe keyData ie) e := by
  refine Keeps.bind fetchBeaconIe_moves fun _ => Keeps.ite (fun _ => Keeps.pure _) fun _ =>
    Keeps.bind Keeps.get fun sm => Keeps.ite (fun _ => ?_) fun _ => Keeps.pure _
  exact Keeps.bind wpaSmDeauthenticate_moves fun _ => Keeps.pure _

theorem wpaHandleExtKeyId_moves :
    Keeps (ReflTransGen (BaseMove e)) (wpaHandleExtKeyId keyData ie) e := by
  refine Keeps.bind Keeps.get fun sm => Keeps.ite (fun _ => ?_) fun _ =>
    Keeps.ite (fun _ => Keeps.pure _) fun _ => ?_
  · split
    · exact Keeps.bind (plain_update fun _ => rfl) fun _ => Keeps.pure _
    · refine Keeps.ite (fun _ => Keeps.pure _) fun _ => ?_
      exact Keeps.bind (plain_update fun _ => rfl) fun _ => Keeps.pure _
  · exact Keeps.bind (plain_update fun _ => rfl) fun _ => Keeps.pure _

theorem keyDataAcceptable_checked {s : Sm} (hie : wpaSupplicantParseIes keyData = some ie)
    (h : keyDataAcceptable s key.keyInfo ie) : Checked key keyData ie := by
  simp only [keyDataAcceptable, Bool.and_eq_true, Bool.not_eq_true', Bool.and_eq_false_iff,
    Bool.not_eq_false'] at h
  refine ⟨hie, fun hg => ?_, fun hg => ?_⟩
  · exact h.1.1.resolve_left (by simp [hg])
  · exact h.1.2.resolve_left (by simp [hg])

theorem wpaSupplicantProcess3Of4_moves :
    Keeps (ReflTransGen (KeyMove e key ver keyData))
      (wpaSupplicantProcess3Of4 key ver keyData) e := by
  refine Keeps.bind (base_keys (wpaSmSetState_moves (by decide))) fun _ =>
    Keeps.bind Keeps.get fun sm => ?_
  split
  · exact base_keys failed_moves
  · rename_i ie hie
    refine Keeps.ite (fun _ => base_keys failed_moves) fun hacc => ?_
    rw [not_not] at hacc
    refine Keeps.bind (base_keys wpaSupplicantValidateIe_moves) fun _ =>
      Keeps.ite (fun _ => base_keys failed_moves) fun _ => ?_
    refine Keeps.bind (base_keys wpaHandleExtKeyId_moves) fun _ =>
      Keeps.ite (fun _ => base_keys failed_moves) fun _ => ?_
    exact process3Of4Checked_moves (keyDataAcceptable_checked hie hacc)

end Message3Of4

section Message1Of2
variable {e : Env} {key : EapolKey} {ver : ℕ} {keyData : Bytes}

/-- The GTK that the group message found belongs to the Key Data as far as RSN is concerned. -/
def GtkFound (s : Sm) (key : EapolKey) (keyData : Bytes) (gd : GtkData) : Prop :=
  ∀ keyRsc, GroupKey s key keyData (gtkSetKey s gd keyRsc)

theorem install1Of2Rsn_spec {ie : EapolIeParse} {g : Bytes} (hck : Checked key keyData ie)
    (hg : kde keyData ie.gtk = some g) (c : Cfg Sm Act) :
    ReflTransGen (KeyMove e key ver keyData) c (install1Of2Rsn keyData ie g e c).2 ∧
      ∀ gd, (install1Of2Rsn keyData ie g e c).1 = some gd → ∀ s, GtkFound s key keyData gd := by
  simp only [install1Of2Rsn, get_bind_apply]
  cases wpaSupplicantCheckGroupCipher c.st.groupCipher (g.length - 2) (g.length - 2) with
  | none => exact ⟨.refl, by simp⟩
  | some alg =>
    refine ⟨path_bind (ieee80211wSetKeys_moves hck fun hnone => ?_) .refl, ?_⟩
    · rw [hnone] at hg
      cases hg
    · rintro gd hgd s keyRsc
      exact hck.gtkKey hg (congrArg GtkData.gtk (Option.some.inj hgd)).symm

theorem wpaSupplicantProcess1Of2Rsn_spec (c : Cfg Sm Act) :
    ReflTransGen (KeyMove e key ver keyData) c
        (wpaSupplicantProcess1Of2Rsn keyData key.keyInfo e c).2 ∧
      ∀ gd, (wpaSupplicantProcess1Of2Rsn keyData key.keyInfo e c).1 = some gd →
        ∀ s, GtkFound s key keyData gd := by
  simp only [wpaSupplicantProcess1Of2Rsn, ask_bind_apply, get_bind_apply]
  cases hie : wpaSupplicantParseIes keyData with
  | none => exact ⟨.refl, by simp⟩
  | some ie =>
    dsimp only
    cases hg : kde keyData ie.gtk with
    | none => exact ⟨.refl, by simp⟩
    | some g =>
      simp only [Prog.ite_apply]
      split_ifs with hencr hlen hocv
      · exact ⟨.refl, by simp⟩
      · exact install1Of2Rsn_spec ⟨hie, fun _ => hencr, fun _ => hencr⟩ hg c
      · exact ⟨.refl, by simp⟩
      · exact ⟨.refl, by simp⟩

theorem wpaSupplicantProcess1Of2Wpa_moves :
    Keeps (ReflTransGen (KeyMove e key ver keyData))
      (wpaSupplicantProcess1Of2Wpa key keyData key.keyInfo ver) e := by
  refine Keeps.ask_bind (Keeps.get_bind fun c => path_ite (fun _ => .refl) fun _ =>
    path_ite (fun _ => .refl) fun _ => ?_)
  cases wpaSupplicantCheckGroupCipher c.st.groupCipher key.keyLength (maxkeylen ver keyData) with
  | none => exact .refl
  | some alg =>
    dsimp only
    cases wpaGroupKeyData e.cr c.st key ver keyData with
    | none => exact .refl
    | some plain => exact .single (KeyMove.decrypted plain)

theorem send2Of2_moves :
    Keeps (ReflTransGen (KeyMove e key ver keyData))
      (wpaSupplicantSend2Of2 key ver key.keyInfo) e := by
  refine Keeps.ask_bind (Keeps.get_bind fun c => path_ite (fun _ => .refl) fun _ => ?_)
  have hsend (oci : Bytes) : ReflTransGen (KeyMove e key ver keyData) c (wpaEapolKeySend c.st.ptk
      ver c.st.bssid (replyFrame e c.st key (keyInfo2Of2 c.st key ver) (zeros 32) oci) true e c).2 :=
    wpaEapolKeySend_moves (fun _ _ => KeyMove.base) fun b =>
      KeyMove.mic2Of2 (s := { c.st with bssid := b }) oci
  refine path_ite (fun _ => path_ite (fun _ => .refl) fun _ => ?_) fun _ => hsend []
  cases e.ocvInsertOciKde with
  | none => exact .refl
  | some oci => exact hsend oci

theorem finish1Of2_moves {rekey : Bool} {gd : GtkData} {c : Cfg Sm Act}
    (hgd : GtkFound c.st key keyData gd) :
    ReflTransGen (KeyMove e key ver keyData) c (finish1Of2 key ver rekey gd e c).2 := by
  unfold finish1Of2
  refine path_bind (x := Prog.get) .refl (path_bind (wpaSupplicantInstallGtk_moves (hgd _)) ?_)
  refine path_ite (fun _ => base_keys failed_moves _) fun _ => ?_
  refine path_bind (send2Of2_moves _) (path_ite (fun _ => base_keys failed_moves _) fun _ => ?_)
  exact path_ite (fun _ => setCompleted_moves _) fun _ => wpaSupplicantKeyNegComplete_moves _

theorem groupData_spec (c : Cfg Sm Act) :
    ReflTransGen (KeyMove e key ver keyData) c (groupData key keyData ver e c).2 ∧
      ∀ gd, (groupData key keyData ver e c).1 = some gd →
        ∀ s, s.proto = c.st.proto → GtkFound s key keyData gd := by
  simp only [groupData, get_bind_apply, Prog.ite_apply]
  split_ifs with hrsn
  · obtain ⟨hmoves, hfound⟩ := @wpaSupplicantProcess1Of2Rsn_spec e key ver keyData c
    exact ⟨hmoves, fun gd hgd s _ => hfound gd hgd s⟩
  · refine ⟨wpaSupplicantProcess1Of2Wpa_moves c, fun gd _ s hs keyRsc => ?_⟩
    have hwpa : ¬s.proto.isRsnOrOsen := by rwa [hs]
    exact ⟨.inl (gtkSetKey_kind s gd keyRsc), fun h => absurd h hwpa, fun h => absurd h hwpa⟩

/-- A group message of RSN whose Key Data is not encrypted is given up before a key is used. -/
theorem wpaSupplicantProcess1Of2_plain {c : Cfg Sm Act} (hrsn : c.st.proto.isRsnOrOsen)
    (hencr : ¬key.has keyInfoEncrKeyData) :
    ReflTransGen (BaseMove e) c (wpaSupplicantProcess1Of2 key keyData ver e c).2 := by
  have hnone : groupData key keyData ver e c = (none, c) := by
    have hencr : ¬hasBits key.keyInfo keyInfoEncrKeyData := hencr
    simp only [groupData, get_bind_apply, Prog.ite_apply, hrsn, if_true,
      wpaSupplicantProcess1Of2Rsn, ask_bind_apply]
    cases wpaSupplicantParseIes keyData with
    | none => rfl
    | some ie =>
      dsimp only
      cases kde keyData ie.gtk with
      | none => rfl
      | some g =>
        simp only [Prog.ite_apply]
        rw [if_pos hencr]
        rfl
  simp only [wpaSupplicantProcess1Of2, get_bind_apply]
  refine path_ite (fun _ => failed_moves c) fun _ => ?_
  rw [bind_apply, hnone]
  exact path_bind (wpaSmSetState_moves (by decide) c) (failed_moves _)

theorem wpaSupplicantProcess1Of2_moves :
    Keeps (ReflTransGen (KeyMove e key ver keyData))
      (wpaSupplicantProcess1Of2 key keyData ver) e := by
  refine Keeps.get_bind fun c => path_ite (fun _ => base_keys failed_moves c) fun _ => ?_
  obtain ⟨hmoves, hfound⟩ := @groupData_spec e key ver keyData c
  refine path_bind hmoves (path_bind (base_keys (wpaSmSetState_moves (by decide)) _) ?_)
  cases hgd : (groupData key keyData ver e c).1 with
  | none => exact base_keys failed_moves _
  | some gd => exact finish1Of2_moves (hfound gd hgd _ (congrArg Fixed.proto (keys_fixed hmoves).1))

end Message1Of2
end Wpa.Rsn
