import Wpa.Lib.CountedArray

/-! Sets of P2P channels as `p2p_utils.c` keeps them: an array of operating classes with an array
of channel numbers in each, both with a count of the entries in use. -/

namespace Wpa.P2p
open Lib

def maxRegClasses : ℕ := 15
def maxRegClassChannels : ℕ := 60

structure RegClass where
  regClass : UInt8
  channel : CountedArray UInt8 maxRegClassChannels

/-- `struct p2p_channels`; the counts are its fields `reg_classes` and `channels`. -/
abbrev Channels := CountedArray RegClass maxRegClasses

def RegClass.zero : RegClass := ⟨0, .filled maxRegClassChannels 0⟩

/-! ### Intersection -/

/-- The body of the inner loop of `p2p_reg_class_intersect`. -/
def matchChannel (x y : UInt8) (res : RegClass) : Option (Flow RegClass) :=
  if x ≠ y then some (.next res)
  else do
    let channel ← res.channel.push x
    let res := { res with channel := channel }
    if channel.count = maxRegClassChannels then some (.done res) else some (.next res)

def regClassIntersect (a b res : RegClass) : Option RegClass :=
  (a.channel.forEach (fun x => b.channel.forEach (matchChannel x))
    { res with regClass := a.regClass }).map Flow.state

/-- The body of the inner loop of `p2p_channels_intersect`: the slot behind the last class is
filled, and counted only if a channel is in it. -/
def matchClass (aReg bReg : RegClass) (res : Channels) : Option (Flow Channels) :=
  if aReg.regClass ≠ bReg.regClass then some (.next res)
  else do
    let slot ← regClassIntersect aReg bReg (← res.read res.count)
    let res ← res.write res.count slot
    if slot.channel.count ≠ 0 then
      let res := { res with count := res.count + 1 }
      if res.count = maxRegClasses then some (.done res) else some (.next res)
    else some (.next res)

def channelsIntersect (a b : Channels) : Option Channels :=
  (a.forEach (fun aReg => b.forEach (matchClass aReg))
    (.filled maxRegClasses .zero)).map Flow.state

/-! ### Union -/

def opClassUnion (cl bCl : RegClass) : Option RegClass :=
  (bCl.channel.forEach (CountedArray.addTurn id) cl.channel).map fun flow =>
    { cl with channel := flow.state }

def extendTurn (bCl cl : RegClass) : Option (Flow RegClass) :=
  if cl.regClass ≠ bCl.regClass then some (.next cl) else (opClassUnion cl bCl).map .next

/-- A class of `res` with the channels of the same class of `b`. -/
def extend (b : Channels) (cl : RegClass) : Option RegClass :=
  (b.forEach extendTurn cl).map Flow.state

def channelsUnionInplace (res b : Channels) : Option Channels := do
  let res ← res.mapInPlace (extend b)
  (b.forEach (CountedArray.addTurn RegClass.regClass) res).map Flow.state

def channelsUnion (a b : Channels) : Option Channels := channelsUnionInplace a b

/-! ### Removal of frequencies -/

/-- `ieee80211_chan_to_freq_global`. -/
def chanToFreqGlobal (opClass chan : ℕ) : ℤ :=
  let within (low high : ℕ) (freq : ℤ) : ℤ := if chan < low ∨ high < chan then -1 else freq
  if opClass = 81 then within 1 13 (2407 + 5 * chan)
  else if opClass = 82 then within 14 14 (2414 + 5 * chan)
  else if opClass = 83 ∨ opClass = 84 then within 1 13 (2407 + 5 * chan)
  else if 115 ≤ opClass ∧ opClass ≤ 120 then within 36 64 (5000 + 5 * chan)
  else if 121 ≤ opClass ∧ opClass ≤ 123 then within 100 140 (5000 + 5 * chan)
  else if opClass = 124 then within 149 161 (5000 + 5 * chan)
  else if 125 ≤ opClass ∧ opClass ≤ 127 then within 149 177 (5000 + 5 * chan)
  else if 128 ≤ opClass ∧ opClass ≤ 130 then within 36 177 (5000 + 5 * chan)
  else if 131 ≤ opClass ∧ opClass ≤ 135 then within 1 233 (5950 + chan * 5)
  else if opClass = 136 then (if chan = 2 then 5935 else -1)
  else if opClass = 180 then within 1 8 (56160 + 2160 * chan)
  else if opClass = 181 then within 9 15 (56160 + 2160 * ((chan : ℤ) - 8))
  else if opClass = 182 then within 17 22 (56160 + 2160 * ((chan : ℤ) - 16))
  else if opClass = 183 then within 25 29 (56160 + 2160 * ((chan : ℤ) - 24))
  else -1

/-- `p2p_channel_to_freq`: without a country only the global table is read. -/
def channelToFreq (opClass channel : UInt8) : ℤ := chanToFreqGlobal opClass.toNat channel.toNat

structure FreqRange where
  min : ℕ
  max : ℕ

def freqRangeListIncludes (list : List FreqRange) (freq : ℤ) : Bool :=
  list.any fun range => range.min ≤ freq ∧ freq ≤ range.max

/-- The frequency of a channel is known and in the list. -/
def listed (list : List FreqRange) (opClass channel : UInt8) : Bool :=
  0 < channelToFreq opClass channel ∧ freqRangeListIncludes list (channelToFreq opClass channel)

def removeChannels (list : List FreqRange) (op : RegClass) : Option RegClass :=
  (op.channel.sweep some (listed list op.regClass)).map fun channel => { op with channel := channel }

/-- `none` is the null pointer. -/
def channelsRemoveFreqs (chan : Channels) : Option (List FreqRange) → Option Channels
  | none => some chan
  | some list => chan.sweep (removeChannels list) fun op => op.channel.count == 0

/-! ### Membership -/

def findChannel (channel x : UInt8) (found : Bool) : Option (Flow Bool) :=
  if x = channel then some (.done true) else some (.next found)

def findClass (regClass channel : UInt8) (reg : RegClass) (found : Bool) : Option (Flow Bool) :=
  if reg.regClass ≠ regClass then some (.next found)
  else reg.channel.forEach (findChannel channel) found

def channelsIncludes (channels : Channels) (regClass channel : UInt8) : Option Bool :=
  (channels.forEach (findClass regClass channel) false).map Flow.state

end Wpa.P2p
