import Cursov.Bytes
import Cursov.Library.KeyedFilter
import Mathlib.Algebra.BigOperators.Group.List.Basic
import Mathlib.Algebra.Order.Ring.Rat
import Mathlib.Data.Fin.VecNotation
import Mathlib.Data.Fintype.Basic
import Mathlib.Tactic.FinCases

/-!
# The commutation table

The class keeps, under one mutex, a map from printed MAC addresses to ports and
the packet statistics. Every definition here is the effect of one locked region.
Time points count nanoseconds of the steady clock; durations of the statistics
are rational milliseconds in place of `double`.
-/

namespace CommutationTable

open Bytes KeyedFilter

abbrev Mac := Fin 6 → UInt8

def hexDigit (n : Nat) : UInt8 :=
  if n < 10 then UInt8.ofNat (48 + n) else UInt8.ofNat (55 + n)

/-- The conversion `%02X`. -/
def hexByte (b : UInt8) : ByteString :=
  [hexDigit (b.toNat / 16), hexDigit (b.toNat % 16)]

/-- `snprintf` with `"%02X:%02X:%02X:%02X:%02X:%02X"`; the 17 characters fit the buffer. -/
def macToString (mac : Mac) : ByteString :=
  hexByte (mac 0) ++ 58 :: (hexByte (mac 1) ++ 58 :: (hexByte (mac 2) ++ 58 ::
    (hexByte (mac 3) ++ 58 :: (hexByte (mac 4) ++ 58 :: hexByte (mac 5)))))

/-- The low bit of the first byte marks group addresses, broadcast among them. -/
def isGroup (mac : Mac) : Prop := (mac 0).toNat % 2 = 1

instance : DecidablePred isGroup := fun mac => inferInstanceAs (Decidable ((mac 0).toNat % 2 = 1))

structure TableEntry where
  port : Int
  lastSeen : Int
  deriving DecidableEq

/-- `processingTimes_`, `maxProcessingTime_` and `totalPackets_` are the statistics;
the counter is a 64-bit unsigned integer. -/
structure Table where
  macTable : AList fun _ : ByteString => TableEntry
  maxLifetimeSec : Int
  processingTimes : List ℚ
  maxProcessingTime : ℚ
  totalPackets : Nat

/-- The constructor `CommutationTable(int lifetime)`. -/
def empty (lifetime : Int) : Table where
  macTable := ∅
  maxLifetimeSec := lifetime
  processingTimes := []
  maxProcessingTime := 0
  totalPackets := 0

def updateEntry (t : Table) (mac : Mac) (port now : Int) : Table :=
  { t with macTable := t.macTable.insert (macToString mac) ⟨port, now⟩ }

def getPortForMac (t : Table) (mac : Mac) : Int :=
  match t.macTable.lookup (macToString mac) with
  | some e => e.port
  | none => -1

def nanosPerSecond : Int := 1000000000

/-- `duration_cast<seconds>(now - lastSeen).count()`, which truncates toward zero. -/
def ageSeconds (now : Int) (e : TableEntry) : Int :=
  (now - e.lastSeen).tdiv nanosPerSecond

/-- The loop of `ageEntries`: the iterator either erases its entry or moves on. -/
def eraseExpired (now lifetime : Int) :
    List (Sigma fun _ : ByteString => TableEntry) → List (Sigma fun _ : ByteString => TableEntry)
  | [] => []
  | e :: rest =>
    if lifetime ≤ ageSeconds now e.2 then eraseExpired now lifetime rest
    else e :: eraseExpired now lifetime rest

def alive (now lifetime : Int) (e : TableEntry) : Bool :=
  decide (ageSeconds now e < lifetime)

theorem eraseExpired_eq_filter (now lifetime : Int)
    (entries : List (Sigma fun _ : ByteString => TableEntry)) :
    eraseExpired now lifetime entries = entries.filter fun e => alive now lifetime e.2 := by
  induction entries with
  | nil => rfl
  | cons e rest ih =>
    by_cases h : lifetime ≤ ageSeconds now e.2
    · simp [eraseExpired, alive, h, ih, Int.not_lt.mpr h]
    · simp [eraseExpired, alive, h, ih, Int.not_le.mp h]

/-- The locked part of `ageEntries`, with the clock sample taken before the lock. -/
def ageEntries (t : Table) (now : Int) : Table :=
  { t with
    macTable :=
      { entries := eraseExpired now t.maxLifetimeSec t.macTable.entries
        nodupKeys := by
          rw [eraseExpired_eq_filter]
          exact t.macTable.nodupKeys.sublist List.filter_sublist } }

def updateStats (t : Table) (duration : ℚ) : Table :=
  { t with
    processingTimes := t.processingTimes ++ [duration]
    maxProcessingTime :=
      if t.maxProcessingTime < duration then duration else t.maxProcessingTime
    totalPackets := (t.totalPackets + 1) % 2 ^ 64 }

/-- The average `printStats` forms. -/
def averageProcessingTime (t : Table) : ℚ :=
  if t.processingTimes = [] then 0
  else t.processingTimes.foldl (fun avg x => avg + x) 0 / t.processingTimes.length

theorem hexDigit_injective {m n : Nat} (hm : m < 16) (hn : n < 16)
    (same : hexDigit m = hexDigit n) : m = n := by
  have all : ∀ a : Fin 16, ∀ b : Fin 16, hexDigit a.val = hexDigit b.val → a = b := by decide
  exact congrArg Fin.val (all ⟨m, hm⟩ ⟨n, hn⟩ same)

theorem hexByte_injective : Function.Injective hexByte := by
  intro a b same
  have ha := a.toNat_lt
  have hb := b.toNat_lt
  have digits := List.cons.inj same
  have high := hexDigit_injective (by omega) (by omega) digits.1
  have low := hexDigit_injective (by omega) (by omega) (List.cons.inj digits.2).1
  apply UInt8.toNat_inj.mp
  omega

@[simp] theorem hexByte_length (b : UInt8) : (hexByte b).length = 2 := rfl

/-- The separator is reached after the same two digits in both strings. -/
theorem hexByte_prefix_inj {a b : UInt8} {s t : ByteString}
    (same : hexByte a ++ 58 :: s = hexByte b ++ 58 :: t) : a = b ∧ s = t := by
  obtain ⟨hab, hst⟩ := List.append_inj same (by simp)
  exact ⟨hexByte_injective hab, (List.cons.inj hst).2⟩

theorem macToString_injective : Function.Injective macToString := by
  intro a b same
  obtain ⟨h0, same⟩ := hexByte_prefix_inj same
  obtain ⟨h1, same⟩ := hexByte_prefix_inj same
  obtain ⟨h2, same⟩ := hexByte_prefix_inj same
  obtain ⟨h3, same⟩ := hexByte_prefix_inj same
  obtain ⟨h4, same⟩ := hexByte_prefix_inj same
  have h5 := hexByte_injective same
  funext i
  fin_cases i
  exacts [h0, h1, h2, h3, h4, h5]

def entryFor (t : Table) (mac : Mac) : Option TableEntry :=
  t.macTable.lookup (macToString mac)

theorem getPortForMac_eq (t : Table) (mac : Mac) :
    getPortForMac t mac = ((entryFor t mac).map TableEntry.port).getD (-1) := by
  cases h : t.macTable.lookup (macToString mac) with
  | none => simp [getPortForMac, entryFor, h]
  | some e => simp [getPortForMac, entryFor, h]

@[simp] theorem entryFor_updateEntry (t : Table) (mac : Mac) (port now : Int) :
    entryFor (updateEntry t mac port now) mac = some ⟨port, now⟩ :=
  AList.lookup_insert t.macTable

theorem entryFor_updateEntry_of_ne (t : Table) {mac other : Mac} (port now : Int)
    (different : other ≠ mac) :
    entryFor (updateEntry t mac port now) other = entryFor t other :=
  AList.lookup_insert_ne fun same => different (macToString_injective same)

@[simp] theorem entryFor_updateStats (t : Table) (duration : ℚ) (mac : Mac) :
    entryFor (updateStats t duration) mac = entryFor t mac := rfl

theorem lookup_ageEntries (t : Table) (now : Int) (key : ByteString) :
    (ageEntries t now).macTable.lookup key =
      (t.macTable.lookup key).filter (alive now t.maxLifetimeSec) := by
  have swept : (ageEntries t now).macTable = keep (alive now t.maxLifetimeSec) t.macTable :=
    AList.ext (eraseExpired_eq_filter now t.maxLifetimeSec t.macTable.entries)
  rw [swept, lookup_keep]

theorem entryFor_ageEntries (t : Table) (now : Int) (mac : Mac) :
    entryFor (ageEntries t now) mac =
      (entryFor t mac).filter (alive now t.maxLifetimeSec) :=
  lookup_ageEntries t now _

/-- With a positive lifetime truncation is invisible: negative ages never expire. -/
theorem alive_iff {lifetime : Int} (positive : 1 ≤ lifetime) (now : Int) (e : TableEntry) :
    alive now lifetime e = true ↔ now < e.lastSeen + lifetime * nanosPerSecond := by
  have bound : ∀ d : Int, d.tdiv 1000000000 < lifetime ↔ d < lifetime * 1000000000 := by
    intro d
    by_cases hd : 0 ≤ d
    · rw [Int.tdiv_eq_ediv_of_nonneg hd]
      omega
    · have negative : d.tdiv 1000000000 ≤ 0 := by
        have := Int.tdiv_nonneg (a := -d) (b := 1000000000) (by omega) (by decide)
        rw [Int.neg_tdiv] at this
        omega
      omega
  rw [alive, decide_eq_true_iff, ageSeconds, nanosPerSecond, bound]
  omega

end CommutationTable
