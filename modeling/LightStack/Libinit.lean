import Mathlib.Data.List.Basic
import Mathlib.Tactic.NormNum

/-!
# The device list, the addresses and their configuration file
-/

namespace LightStack.Libinit

open List

/-! ## Encoding -/

def encode16 (val : UInt16) : List UInt8 := [(val <<< 8).toUInt8, (val &&& 0xFF).toUInt8]

def encode32 (val : UInt32) : List UInt8 :=
  [(val <<< 24).toUInt8, (val <<< 16).toUInt8, (val <<< 8).toUInt8, val.toUInt8]

def encode64 (val : UInt64) : List UInt8 :=
  [(val <<< 56).toUInt8, (val <<< 48).toUInt8, (val <<< 40).toUInt8, (val <<< 32).toUInt8,
    (val <<< 24).toUInt8, (val <<< 16).toUInt8, (val <<< 8).toUInt8, val.toUInt8]

/-- The bytes of `n`, the most significant first. -/
def bigEndian : Nat → Nat → List UInt8
  | 0, _ => []
  | w + 1, n => UInt8.ofNat (n / 256 ^ w) :: bigEndian w n

def fromBigEndian (bytes : List UInt8) : Nat := bytes.foldl (fun n b => n * 256 + b.toNat) 0

theorem shifted_byte {n k : Nat} (hk : 8 ≤ k) : n <<< k % 256 = 0 := by
  obtain ⟨m, rfl⟩ := Nat.exists_eq_add_of_le hk
  rw [Nat.shiftLeft_eq, Nat.pow_add, ← Nat.mul_assoc, Nat.mul_right_comm]
  exact Nat.mul_mod_left ..

theorem encode16_iff (v : UInt16) : encode16 v = bigEndian 2 v.toNat ↔ v.toNat < 256 := by
  have hlt := v.toNat_lt
  have hlow : v.toNat % 256 &&& 255 = v.toNat % 256 % 256 := Nat.and_two_pow_sub_one_eq_mod _ 8
  simp [encode16, bigEndian, ← UInt8.toNat_inj, shifted_byte, hlow]
  omega

theorem encode32_iff (v : UInt32) : encode32 v = bigEndian 4 v.toNat ↔ v.toNat < 256 := by
  have hlt := v.toNat_lt
  simp [encode32, bigEndian, ← UInt8.toNat_inj, shifted_byte]
  omega

theorem encode64_iff (v : UInt64) : encode64 v = bigEndian 8 v.toNat ↔ v.toNat < 256 := by
  have hlt := v.toNat_lt
  simp [encode64, bigEndian, ← UInt8.toNat_inj, shifted_byte]
  omega

def maxEthports : Nat := 32

/-- The 20 bytes (`IFACE_NAME_SIZE`) at `get_dev_name`, and the address of the interface. -/
structure NetDevice where
  name : Fin 20 → UInt8
  hwAddr : Fin 6 → UInt8

def htonl (v : UInt32) : UInt32 :=
  (v <<< 24) ||| ((v &&& (0xFF00 : UInt32)) <<< 8) ||| ((v >>> 8) &&& (0xFF00 : UInt32)) |||
    (v >>> 24)

def bytesOf (v : UInt32) : List UInt8 :=
  [v.toUInt8, (v >>> 8).toUInt8, (v >>> 16).toUInt8, (v >>> 24).toUInt8]

section

variable (devices : Nat → Option NetDevice) (sockaddrDl : Fin 6 → UInt8)

/-- The record of one device. `sockaddr_dl` is copied without having been set. -/
def deviceRecord (dev : NetDevice) (devIdx hwAddrLen : UInt32) : List UInt8 :=
  List.ofFn dev.name ++ (encode32 devIdx ++ [0] ++ encode64 67 ++ encode32 1 ++ encode32 1500 ++
    encode32 1500 ++ encode32 0 ++ bytesOf hwAddrLen ++ List.ofFn sockaddrDl)

def getAllDevicesFrom : List Nat → UInt32 → List UInt8
  | [], _ => []
  | devIdx :: rest, hwAddrLen =>
    match devices devIdx with
    | none => getAllDevicesFrom rest hwAddrLen
    | some dev =>
      deviceRecord sockaddrDl dev (UInt32.ofNat devIdx) (htonl hwAddrLen) ++
        getAllDevicesFrom rest (htonl hwAddrLen)

def getAllDevices : List UInt8 := getAllDevicesFrom devices sockaddrDl (List.range maxEthports) 6

structure DeviceInfo where
  name : List UInt8
  index : Nat
  status : Nat
  flags : Nat
  metric : Nat
  mtu : Nat
  mtu6 : Nat
  bandwidth : Nat
  hwAddrLen : Nat
  hwAddr : List UInt8
  deriving DecidableEq

def recordWidth : Nat := 59

def decode (buf : List UInt8) : DeviceInfo where
  name := buf.take 20
  index := fromBigEndian ((buf.drop 20).take 4)
  status := fromBigEndian ((buf.drop 24).take 1)
  flags := fromBigEndian ((buf.drop 25).take 8)
  metric := fromBigEndian ((buf.drop 33).take 4)
  mtu := fromBigEndian ((buf.drop 37).take 4)
  mtu6 := fromBigEndian ((buf.drop 41).take 4)
  bandwidth := fromBigEndian ((buf.drop 45).take 4)
  hwAddrLen := fromBigEndian ((buf.drop 49).take 4)
  hwAddr := (buf.drop 53).take 6

def decodeAll (buf : List UInt8) : List DeviceInfo :=
  (List.range (buf.length / recordWidth)).map fun i => decode (buf.drop (recordWidth * i))

def present : List DeviceInfo :=
  (List.range maxEthports).filterMap fun i => (devices i).map fun dev =>
    { name := List.ofFn dev.name, index := i, status := 0, flags := 67, metric := 1, mtu := 1500,
      mtu6 := 1500, bandwidth := 0, hwAddrLen := 6, hwAddr := List.ofFn dev.hwAddr }

theorem deviceRecord_length (dev : NetDevice) (devIdx hwAddrLen : UInt32) :
    (deviceRecord sockaddrDl dev devIdx hwAddrLen).length = recordWidth := by
  simp [deviceRecord, encode32, encode64, bytesOf, recordWidth]

theorem getAllDevicesFrom_length (l : List Nat) (hwAddrLen : UInt32) :
    (getAllDevicesFrom devices sockaddrDl l hwAddrLen).length =
      recordWidth * (l.filterMap devices).length := by
  induction l generalizing hwAddrLen with
  | nil => rfl
  | cons devIdx rest ih =>
    rw [getAllDevicesFrom]
    cases hdev : devices devIdx with
    | none => rw [filterMap_cons_none hdev, ih]
    | some dev =>
      rw [filterMap_cons_some hdev, length_append, deviceRecord_length, ih,
        length_cons, Nat.mul_succ, Nat.add_comm]

theorem mtu_decode_deviceRecord (dev : NetDevice) (devIdx hwAddrLen : UInt32) (rest : List UInt8) :
    (decode (deviceRecord sockaddrDl dev devIdx hwAddrLen ++ rest)).mtu = 220 := by
  have hname : (List.ofFn dev.name).length = 20 := length_ofFn
  simp only [decode, deviceRecord, append_assoc, drop_append, hname,
    drop_eq_nil_of_le (show (List.ofFn dev.name).length ≤ 37 by omega)]
  rfl

theorem getAllDevicesFrom_cases (l : List Nat) (hwAddrLen : UInt32) : l.filterMap devices = [] ∨
      (decode (getAllDevicesFrom devices sockaddrDl l hwAddrLen)).mtu = 220 := by
  induction l generalizing hwAddrLen with
  | nil => exact .inl rfl
  | cons devIdx rest ih =>
    rw [getAllDevicesFrom]
    cases hdev : devices devIdx with
    | none => rw [filterMap_cons_none hdev]; exact ih hwAddrLen
    | some dev => exact .inr (mtu_decode_deviceRecord sockaddrDl dev _ _ _)

variable {devices}

theorem mtu_of_mem_present {info : DeviceInfo} (hmem : info ∈ present devices) :
    info.mtu = 1500 := by
  obtain ⟨i, -, hinfo⟩ := mem_filterMap.mp hmem
  obtain ⟨dev, -, rfl⟩ := Option.map_eq_some_iff.mp hinfo
  rfl

theorem present_eq_nil_iff : present devices = [] ↔
    (List.range maxEthports).filterMap devices = [] := by
  simp [present, filterMap_eq_nil_iff]

/-- The encoders are right for the values of one byte and for no others. -/
theorem device_list_encoding (devices : Nat → Option NetDevice) (sockaddrDl : Fin 6 → UInt8) :
    (∀ v, encode16 v = bigEndian 2 v.toNat ↔ v.toNat < 256) ∧
      (∀ v, encode32 v = bigEndian 4 v.toNat ↔ v.toNat < 256) ∧
      (∀ v, encode64 v = bigEndian 8 v.toNat ↔ v.toNat < 256) ∧
      (getAllDevices devices sockaddrDl).length =
        recordWidth * ((List.range maxEthports).filterMap devices).length ∧
      (decodeAll (getAllDevices devices sockaddrDl) = present devices ↔
        ∀ i < maxEthports, devices i = none) := by
  have hlength := getAllDevicesFrom_length devices sockaddrDl (List.range maxEthports) 6
  refine ⟨encode16_iff, encode32_iff, encode64_iff, hlength, ?_⟩
  have hnone : (∀ i < maxEthports, devices i = none) ↔
      (List.range maxEthports).filterMap devices = [] := by
    simp [filterMap_eq_nil_iff]
  rw [hnone]
  constructor
  · intro heq
    rcases getAllDevicesFrom_cases devices sockaddrDl (List.range maxEthports) 6 with
      hnil | hmtu
    · exact hnil
    · by_contra hsome
      have hmem : decode (getAllDevices devices sockaddrDl) ∈ present devices := by
        rw [← heq, decodeAll, mem_map]
        refine ⟨0, mem_range.mpr ?_, by rw [Nat.mul_zero, drop_zero]⟩
        rw [getAllDevices, hlength, Nat.mul_div_cancel_left _ (by decide)]
        exact length_pos_iff.mpr hsome
      exact absurd ((mtu_of_mem_present hmem).symm.trans hmtu) (by decide)
  · intro hnil
    rw [present_eq_nil_iff.mpr hnil, decodeAll, getAllDevices, hlength, hnil]
    rfl

theorem device_list_garbled :
    let devices i := if i < 2 then some ⟨fun _ => 101, fun _ => 1⟩ else none
    (decodeAll (getAllDevices devices fun _ => 0)).map (fun info => (info.mtu, info.hwAddrLen)) =
        [(220, 6), (220, 100663296)] ∧
      (present devices).map (fun info => (info.mtu, info.hwAddrLen)) = [(1500, 6), (1500, 6)] := by
  decide +kernel

end

/-- An entry of `dpdk_dev_config`; the strings have 20 bytes each. -/
structure ConfigEntry where
  portNumber : Int32
  ipAddrStr : List Char
  ipMaskStr : List Char
  deriving DecidableEq

/-- `RTE_MAX_ETHPORTS * ALIASES_MAX_NUMBER` -/
def configEntries : Nat := 128

structure AddressRecord where
  devIdx : Nat
  flags : Nat
  family : Nat
  address : UInt32
  prefixLen : Nat
  deriving DecidableEq

section

variable (inetAddr : List Char → UInt32) (config : Nat → ConfigEntry) (hasDevice : Nat → Bool)

/-- One record for each device whose own number is the index of a used entry. -/
def getAllAddresses : List AddressRecord :=
  (List.range maxEthports).filterMap fun devIdx =>
    if hasDevice devIdx = true ∧ (config devIdx).portNumber ≠ -1 then
      some ⟨devIdx, 67, 2, inetAddr (config devIdx).ipAddrStr, 32⟩
    else none

def getDpdkConfigEntry (portnum : Int32) : Option ConfigEntry :=
  ((List.range configEntries).find? fun i => (config i).portNumber = portnum).map config

def reported (records : List AddressRecord) (devIdx : Nat) : List UInt32 :=
  records.filterMap fun r => if r.devIdx = devIdx then some r.address else none

def configuredEntries (portnum : Int32) : List ConfigEntry :=
  ((List.range configEntries).filter fun i => (config i).portNumber = portnum).map config

def configured (portnum : Int32) : List UInt32 :=
  (configuredEntries config portnum).map fun entry => inetAddr entry.ipAddrStr

theorem getDpdkConfigEntry_eq_head (portnum : Int32) :
    getDpdkConfigEntry config portnum = (configuredEntries config portnum).head? := by
  rw [getDpdkConfigEntry, configuredEntries, List.head?_map, List.head?_filter]

theorem filterMap_range_single {α : Type} {f : Nat → Option α} {d : Nat}
    (hf : ∀ i, i ≠ d → f i = none) (n : Nat) :
    (List.range n).filterMap f = if d < n then (f d).toList else [] := by
  induction n with
  | zero => rfl
  | succ n ih =>
    rw [range_succ, filterMap_append, ih]
    by_cases hn : n = d
    · subst hn
      cases hfn : f n <;> simp [hfn]
    · have hlt : d < n + 1 ↔ d < n := by omega
      simp [hf n hn, hlt]

theorem reported_getAllAddresses (d : Nat) :
    reported (getAllAddresses inetAddr config hasDevice) d =
      if d < maxEthports ∧ hasDevice d = true ∧ (config d).portNumber ≠ -1 then
        [inetAddr (config d).ipAddrStr] else [] := by
  rw [reported, getAllAddresses, filterMap_filterMap, filterMap_range_single (d := d)]
  · by_cases hd : d < maxEthports <;>
      by_cases hused : hasDevice d = true ∧ (config d).portNumber ≠ -1 <;> simp [hd, hused]
  · intro i hi
    split <;> simp [hi]

/-- What is to be reported for device `d`. -/
def Reported (d : Nat) : Prop :=
  if hasDevice d then
    reported (getAllAddresses inetAddr config hasDevice) d =
        configured inetAddr config (Int32.ofNat d) ∧
      configured inetAddr config (Int32.ofNat d) =
        ((getDpdkConfigEntry config (Int32.ofNat d)).map fun entry =>
          inetAddr entry.ipAddrStr).toList
  else reported (getAllAddresses inetAddr config hasDevice) d = []

/-- If entry `d` is used, one entry is for port `d`, and with the address of entry `d`; if it is
not, none is. -/
def Matches (d : Nat) : Prop :=
  if (config d).portNumber = -1 then
    ∀ i < configEntries, (config i).portNumber ≠ Int32.ofNat d
  else
    ∃ i, ((List.range configEntries).filter fun i => (config i).portNumber = Int32.ofNat d) = [i] ∧
      inetAddr (config i).ipAddrStr = inetAddr (config d).ipAddrStr

end

def unusedEntry : ConfigEntry := ⟨-1, [], []⟩

/-- What `fscanf` with `%d %s %s` converts, and the text behind it. -/
inductive Scan where
  | nothing
  | mismatch (rest : List Char)
  | number (port : Int)
  | address (port : Int) (ip : List Char)
  | triple (port : Int) (ip mask rest : List Char)
  deriving DecidableEq

namespace Scan

/-- The result of `fscanf`. -/
def rc : Scan → Int
  | nothing => -1
  | mismatch _ => 0
  | number _ => 1
  | address .. => 2
  | triple .. => 3

def rest : Scan → List Char
  | mismatch rest | triple _ _ _ rest => rest
  | _ => []

def eof (r : Scan) : Bool := r.rest.isEmpty

def port : Scan → Option Int
  | number port | address port _ | triple port .. => some port
  | _ => none

def ip : Scan → Option (List Char)
  | address _ ip | triple _ ip .. => some ip
  | _ => none

def mask : Scan → Option (List Char)
  | triple _ _ mask _ => some mask
  | _ => none

end Scan

def isSpace (c : Char) : Bool := c = ' ' ∨ '\t' ≤ c ∧ c ≤ '\r'

def digitsValue (digits : List Char) : Nat := digits.foldl (fun n c => n * 10 + (c.toNat - 48)) 0

def scanSign : List Char → Int × List Char
  | '-' :: text => (-1, text)
  | '+' :: text => (1, text)
  | text => (1, text)

def fscanf (text : List Char) : Scan :=
  let start := text.dropWhile isSpace
  if start = [] then .nothing
  else
    let (sign, number) := scanSign start
    let port := sign * digitsValue (number.takeWhile Char.isDigit)
    -- a sign that no digit follows has been consumed, any other text has not
    if number.takeWhile Char.isDigit = [] then .mismatch number
    else
      let first := (number.dropWhile Char.isDigit).dropWhile isSpace
      if first = [] then .number port
      else
        let ip := first.takeWhile fun c => !isSpace c
        let second := (first.dropWhile fun c => !isSpace c).dropWhile isSpace
        if second = [] then .address port ip
        else .triple port ip (second.takeWhile fun c => !isSpace c)
          (second.dropWhile fun c => !isSpace c)

/-- The table, and whether more than the 20 bytes of a string were written. -/
structure Table where
  entry : Nat → ConfigEntry
  overrun : Bool

def FitsInt (port : Int) : Prop := -2 ^ 31 ≤ port ∧ port < 2 ^ 31

instance (port : Int) : Decidable (FitsInt port) := inferInstanceAs (Decidable (_ ∧ _))

section

/- What `%d` stores for a number that is no `int` is not defined. -/
variable (undefined : Int → Int32)

def toInt (port : Int) : Int32 := if FitsInt port then Int32.ofInt port else undefined port

def Table.write (table : Table) (i : Nat) (r : Scan) : Table where
  entry := Function.update table.entry i
    ⟨(r.port.map (toInt undefined)).getD (table.entry i).portNumber,
      r.ip.getD (table.entry i).ipAddrStr, r.mask.getD (table.entry i).ipMaskStr⟩
  overrun := table.overrun || (r.ip.toList ++ r.mask.toList).any (20 ≤ ·.length)

def readEntries : Nat → Nat → Table → List Char → Bool → Option Table
  | _, _, table, _, true => some table
  | 0, _, _, _, false => none
  | fuel + 1, i, table, text, false =>
    let r := fscanf text
    let table := table.write undefined i r
    if r.rc = 0 then readEntries fuel i table r.rest r.eof
    else if i + 1 = configEntries then some table
    else readEntries fuel (i + 1) table r.rest r.eof

def getDpdkIpStackConfig (fuel : Nat) (old : Nat → ConfigEntry) (text : List Char) :
    Option Table :=
  readEntries undefined fuel 0 ⟨fun i => { old i with portNumber := -1 }, false⟩ text false

end

/-- A line of the file. -/
structure Triple where
  port : Int
  ip : List Char
  mask : List Char

/-- The complete triples before the first malformed one, at most `n`. -/
def triples : Nat → List Char → List Triple
  | 0, _ => []
  | n + 1, text =>
    match fscanf text with
    | .triple port ip mask rest => ⟨port, ip, mask⟩ :: if rest = [] then [] else triples n rest
    | _ => []

/-- The table from entry `i` on holds `lines` and nothing else, and no string was overrun. -/
structure Holds (table : Table) (i : Nat) (lines : List Triple) : Prop where
  stored : ∀ k line, lines[k]? = some line →
    (table.entry (i + k)).portNumber.toInt = line.port ∧
      (table.entry (i + k)).ipAddrStr = line.ip ∧ (table.entry (i + k)).ipMaskStr = line.mask
  unused : ∀ k, i + lines.length ≤ k → (table.entry k).portNumber = -1
  inside : table.overrun = false

/-- The texts that are read as they should be into a table with room for `n` entries: triples
whose port is an `int` and whose words fit. What is read behind a malformed one (`bad`), and what is
incomplete, goes unnoticed if its port is -1. -/
inductive Proper : Bool → Nat → List Char → Prop
  | full (bad : Bool) (text : List Char) : Proper bad 0 text
  | nothing {bad : Bool} {n : Nat} {text : List Char} (hscan : fscanf text = .nothing) :
    Proper bad (n + 1) text
  | number {bad : Bool} {n : Nat} {text : List Char} (hscan : fscanf text = .number (-1)) :
    Proper bad (n + 1) text
  | address {bad : Bool} {n : Nat} {text ip : List Char} (hscan : fscanf text = .address (-1) ip)
    (hfits : ip.length < 20) : Proper bad (n + 1) text
  | mismatch {bad : Bool} {n : Nat} {text rest : List Char} (hscan : fscanf text = .mismatch rest)
    (hrest : rest ≠ [] → Proper true (n + 1) rest) : Proper bad (n + 1) text
  | triple {bad : Bool} {n : Nat} {port : Int} {text ip mask rest : List Char}
    (hscan : fscanf text = .triple port ip mask rest)
    (hport : if bad then port = -1 else FitsInt port) (hfits : ip.length < 20 ∧ mask.length < 20)
    (hrest : rest ≠ [] → Proper bad n rest) : Proper bad (n + 1) text

section

variable {bad : Bool} {fuel i n : Nat} {table t : Table} {text rest : List Char}
  {lines : List Triple} {undefined : Int → Int32}

theorem readEntries_eof : readEntries undefined fuel i table text true = some table := by
  cases fuel <;> rfl

/-- The entries before `i` stay, and an overrun is not undone. -/
theorem readEntries_frame {eof : Bool}
    (h : readEntries undefined fuel i table text eof = some t) :
    (∀ k < i, t.entry k = table.entry k) ∧ (t.overrun = false → table.overrun = false) := by
  induction fuel generalizing i table text eof with
  | zero =>
    cases eof with
    | true => cases h; exact ⟨fun _ _ => rfl, id⟩
    | false => cases h
  | succ fuel ih =>
    cases eof with
    | true => cases h; exact ⟨fun _ _ => rfl, id⟩
    | false =>
      have hwrite : (∀ k < i, (table.write undefined i (fscanf text)).entry k = table.entry k) ∧
          ((table.write undefined i (fscanf text)).overrun = false → table.overrun = false) :=
        ⟨fun k hk => Function.update_of_ne (Nat.ne_of_lt hk) _ _,
          fun hno => (Bool.or_eq_false_iff.mp hno).1⟩
      simp only [readEntries] at h
      split_ifs at h
      · exact ⟨fun k hk => ((ih h).1 k hk).trans (hwrite.1 k hk), hwrite.2 ∘ (ih h).2⟩
      · cases h
        exact hwrite
      · exact ⟨fun k hk => ((ih h).1 k (by omega)).trans (hwrite.1 k hk), hwrite.2 ∘ (ih h).2⟩

/-- The table as it is when entry `i` is read. -/
structure Clear (table : Table) (i : Nat) : Prop where
  unused : ∀ k, i ≤ k → (table.entry k).portNumber = -1
  inside : table.overrun = false

theorem Clear.holds (h : Clear table i) : Holds table i [] := ⟨by simp, h.unused, h.inside⟩

theorem Holds.cons_iff {line : Triple} : Holds table i (line :: lines) ↔
    ((table.entry i).portNumber.toInt = line.port ∧ (table.entry i).ipAddrStr = line.ip ∧
      (table.entry i).ipMaskStr = line.mask) ∧ Holds table (i + 1) lines := by
  constructor
  · intro h
    refine ⟨h.stored 0 line rfl, fun k e hk => ?_, fun k hk => h.unused k ?_, h.inside⟩
    · rw [Nat.succ_add_eq_add_succ]
      exact h.stored (k + 1) e hk
    · rw [length_cons]
      omega
  · rintro ⟨hline, h⟩
    refine ⟨?_, fun k hk => h.unused k ?_, h.inside⟩
    · rintro (_ | k) e hk
      · cases hk
        exact hline
      · rw [← Nat.succ_add_eq_add_succ]
        exact h.stored k e hk
    · rw [length_cons] at hk
      omega

theorem Holds.nil_succ_iff : Holds table i [] ↔
    (table.entry i).portNumber = -1 ∧ Holds table (i + 1) [] := by
  refine ⟨fun h => ⟨h.unused i (Nat.le_refl i), by simp, fun k hk => h.unused k ?_, h.inside⟩,
    fun ⟨hi, h⟩ => ⟨by simp, fun k hk => ?_, h.inside⟩⟩
  · rw [length_nil] at hk ⊢
    omega
  · rcases Nat.eq_or_lt_of_le hk with rfl | hlt
    · exact hi
    · exact h.unused k hlt

theorem Clear.write {r : Scan} (h : Clear table i)
    (hfits : (r.ip.toList ++ r.mask.toList).any (20 ≤ ·.length) = false) :
    Clear (table.write undefined i r) (i + 1) where
  unused k hk := by
    have hne : k ≠ i := by omega
    simp only [Table.write, Function.update_of_ne hne]
    exact h.unused k (by omega)
  inside := by
    simp only [Table.write, h.inside, hfits, Bool.or_self]

theorem write_nothing : table.write undefined i .nothing = table := by
  simp [Table.write, Scan.port, Scan.ip, Scan.mask]

theorem write_mismatch : table.write undefined i (.mismatch rest) = table := by
  simp [Table.write, Scan.port, Scan.ip, Scan.mask]

theorem readEntries_end {r : Scan} (hscan : fscanf text = r) (hrc : r.rc ≠ 0)
    (hrest : r.rest = []) :
    readEntries undefined (fuel + 1) i table text false = some (table.write undefined i r) := by
  simp only [readEntries, hscan, hrc, Scan.eof, hrest, isEmpty_nil, readEntries_eof,
    ite_self]

theorem toInt_toInt_of_fits {port : Int} (h : FitsInt port) :
    (toInt undefined port).toInt = port := by
  rw [toInt, if_pos h]
  exact Int32.toInt_ofInt_of_le h.1 h.2

theorem toInt_eq_neg_one : toInt undefined (-1) = -1 := rfl

/-- Of a number that is no `int` nothing is known, so it may be stored as 0. -/
theorem fits_of_toInt_toInt {port : Int} (h : (toInt (fun _ => 0) port).toInt = port) :
    FitsInt port := by
  by_contra hout
  rw [toInt, if_neg hout] at h
  exact hout (h ▸ by decide)

theorem eq_neg_one_of_toInt {port : Int} (h : toInt (fun _ => 0) port = -1) : port = -1 := by
  by_cases hfits : FitsInt port
  · rw [← toInt_toInt_of_fits hfits, h]
    rfl
  · rw [toInt, if_neg hfits] at h
    exact absurd h (by decide)

def expected (bad : Bool) (n : Nat) (text : List Char) : List Triple :=
  if bad then [] else triples n text

theorem expected_of_incomplete (h : ∀ port ip mask rest, fscanf text ≠ .triple port ip mask rest) :
    expected bad (n + 1) text = [] := by
  rw [expected, triples]
  split
  · rfl
  · split
    · exact absurd ‹_› (h _ _ _ _)
    · rfl

theorem expected_of_triple {port : Int} {ip mask : List Char}
    (hscan : fscanf text = .triple port ip mask rest) : expected bad (n + 1) text =
      if bad then [] else ⟨port, ip, mask⟩ :: if rest = [] then [] else expected bad n rest := by
  cases bad <;> simp [expected, triples, hscan]

/-- One line more: the entry is the triple, or unnoticed, and the rest is as it should be. -/
theorem holds_triple_iff {port : Int} {ip mask : List Char}
    (hscan : fscanf text = .triple port ip mask rest) :
    Holds t i (expected bad (n + 1) text) ↔
      (if bad then (t.entry i).portNumber = -1
        else (t.entry i).portNumber.toInt = port ∧ (t.entry i).ipAddrStr = ip ∧
          (t.entry i).ipMaskStr = mask) ∧
        Holds t (i + 1) (if rest = [] then [] else expected bad n rest) := by
  rw [expected_of_triple hscan]
  cases bad with
  | true => simpa [expected] using Holds.nil_succ_iff
  | false => simpa using Holds.cons_iff

theorem Proper.read (h : Proper bad n text) (hn : i + n = configEntries) (hpos : n ≠ 0)
    (hclear : Clear table i) : ∃ fuel t, readEntries undefined fuel i table text false = some t ∧
      Holds t i (expected bad n text) := by
  induction h generalizing i table with
  | full => exact absurd rfl hpos
  | nothing hscan =>
    refine ⟨1, table, (readEntries_end hscan (by decide) rfl).trans ?_, ?_⟩
    · rw [write_nothing]
    · rw [expected_of_incomplete (by simp [hscan])]
      exact hclear.holds
  | number hscan =>
    refine ⟨1, _, readEntries_end hscan (by decide) rfl, ?_⟩
    rw [expected_of_incomplete (by simp [hscan]), Holds.nil_succ_iff]
    exact ⟨by simp [Table.write, Scan.port, toInt_eq_neg_one], (hclear.write rfl).holds⟩
  | address hscan hfits =>
    refine ⟨1, _, readEntries_end hscan (by simp [Scan.rc]) rfl, ?_⟩
    rw [expected_of_incomplete (by simp [hscan]), Holds.nil_succ_iff]
    exact ⟨by simp [Table.write, Scan.port, toInt_eq_neg_one],
      (hclear.write (by simpa [Scan.ip, Scan.mask] using hfits)).holds⟩
  | @mismatch bad n text rest hscan _ ih =>
    rw [expected_of_incomplete (by simp [hscan])]
    by_cases hrest : rest = []
    · refine ⟨1, table, ?_, hclear.holds⟩
      simp [readEntries, hscan, Scan.rc, Scan.eof, Scan.rest, hrest, write_mismatch]
    · obtain ⟨fuel, t, hread, hholds⟩ := ih hrest hn hpos hclear
      refine ⟨fuel + 1, t, ?_, hholds⟩
      have heof : rest.isEmpty = false := by simpa using hrest
      simpa [readEntries, hscan, Scan.rc, Scan.eof, Scan.rest, heof, write_mismatch] using hread
  | @triple bad n port text ip mask rest hscan hport hfits _ ih =>
    have hwrite : Clear (table.write undefined i (.triple port ip mask rest)) (i + 1) :=
      hclear.write (by simpa [Scan.ip, Scan.mask] using hfits)
    have hentry : if bad then ((table.write undefined i (.triple port ip mask rest)).entry
          i).portNumber = -1
        else ((table.write undefined i (.triple port ip mask rest)).entry i).portNumber.toInt =
            port ∧ ((table.write undefined i (.triple port ip mask rest)).entry i).ipAddrStr = ip ∧
          ((table.write undefined i (.triple port ip mask rest)).entry i).ipMaskStr = mask := by
      cases bad with
      | true =>
        obtain rfl : port = -1 := hport
        simp [Table.write, Scan.port, toInt_eq_neg_one]
      | false =>
        simpa [Table.write, Scan.port, Scan.ip, Scan.mask] using toInt_toInt_of_fits hport
    by_cases hlast : n = 0 ∨ rest = []
    · refine ⟨1, _, ?_, (holds_triple_iff hscan).mpr ⟨hentry, ?_⟩⟩
      · rcases hlast with rfl | rfl
        · simp [readEntries, hscan, Scan.rc, hn]
        · exact readEntries_end hscan (by simp [Scan.rc]) rfl
      · rcases hlast with rfl | rfl
        · simpa [expected, triples] using hwrite.holds
        · exact hwrite.holds
    · obtain ⟨hn0, hrest⟩ := not_or.mp hlast
      obtain ⟨fuel, t, hread, hholds⟩ := ih hrest (by omega) hn0 hwrite
      refine ⟨fuel + 1, t, ?_, (holds_triple_iff hscan).mpr ⟨?_, by rwa [if_neg hrest]⟩⟩
      · have hne : i + 1 ≠ configEntries := by omega
        have heof : rest.isEmpty = false := by simpa using hrest
        simpa [readEntries, hscan, Scan.rc, Scan.eof, Scan.rest, heof, hne] using hread
      · rwa [(readEntries_frame hread).1 i (Nat.lt_succ_self i)]

theorem proper_of_read (hread : readEntries (fun _ => 0) fuel i table text false = some t)
    (hholds : Holds t i (expected bad n text)) (hn : i + n = configEntries)
    (hclear : Clear table i) : Proper bad n text := by
  induction fuel generalizing i table text bad n with
  | zero => cases hread
  | succ fuel ih =>
    rcases n with _ | n
    · exact .full bad text
    cases hscan : fscanf text with
    | nothing => exact .nothing hscan
    | mismatch rest =>
      rw [expected_of_incomplete (by simp [hscan])] at hholds
      refine .mismatch hscan fun hrest => ih ?_ hholds hn hclear
      have heof : rest.isEmpty = false := by simpa using hrest
      simpa [readEntries, hscan, Scan.rc, Scan.eof, Scan.rest, heof, write_mismatch] using hread
    | number port =>
      rw [readEntries_end hscan (by simp [Scan.rc]) rfl] at hread
      cases hread
      rw [expected_of_incomplete (by simp [hscan]), Holds.nil_succ_iff] at hholds
      obtain rfl := eq_neg_one_of_toInt (by simpa [Table.write, Scan.port] using hholds.1)
      exact .number hscan
    | address port ip =>
      rw [readEntries_end hscan (by simp [Scan.rc]) rfl] at hread
      cases hread
      rw [expected_of_incomplete (by simp [hscan]), Holds.nil_succ_iff] at hholds
      obtain rfl := eq_neg_one_of_toInt (by simpa [Table.write, Scan.port] using hholds.1)
      refine .address hscan ?_
      simpa [Table.write, Scan.ip, Scan.mask, hclear.inside] using hholds.2.inside
    | triple port ip mask rest =>
      obtain ⟨hentry, hrest⟩ := (holds_triple_iff hscan).mp hholds
      obtain ⟨u, hcont, hlast⟩ : ∃ u, u = table.write (fun _ => 0) i (.triple port ip mask rest) ∧
          (n = 0 ∨ rest = [] → t = u) := by
        refine ⟨_, rfl, fun h => ?_⟩
        rcases h with rfl | rfl
        · simpa [readEntries, hscan, Scan.rc, hn] using hread.symm
        · rw [readEntries_end hscan (by simp [Scan.rc]) rfl] at hread
          exact (Option.some.inj hread).symm
      have hmore (h : ¬(n = 0 ∨ rest = [])) :
          readEntries (fun _ => 0) fuel (i + 1) u rest false = some t := by
        have hne : i + 1 ≠ configEntries := by omega
        have heof : rest.isEmpty = false := by simpa using (not_or.mp h).2
        rw [hcont]
        simpa [readEntries, hscan, Scan.rc, Scan.eof, Scan.rest, heof, hne] using hread
      have hframe : t.entry i = u.entry i ∧ u.overrun = false := by
        by_cases h : n = 0 ∨ rest = []
        · rw [← hlast h]
          exact ⟨rfl, hrest.inside⟩
        · have hframe := readEntries_frame (hmore h)
          exact ⟨hframe.1 i (Nat.lt_succ_self i), hframe.2 hrest.inside⟩
      have hfits : ip.length < 20 ∧ mask.length < 20 := by
        simpa [hcont, Table.write, Scan.ip, Scan.mask, hclear.inside] using hframe.2
      refine .triple hscan ?_ hfits fun hne => ?_
      · rw [hframe.1, hcont] at hentry
        cases bad with
        | true => exact eq_neg_one_of_toInt (by simpa [Table.write, Scan.port] using hentry)
        | false =>
          refine fits_of_toInt_toInt ?_
          simpa [Table.write, Scan.port, Scan.ip, Scan.mask] using hentry
      · by_cases h : n = 0 ∨ rest = []
        · rw [h.resolve_right hne]
          exact .full bad rest
        · rw [if_neg hne] at hrest
          refine ih (hmore h) hrest (by omega) ?_
          rw [hcont]
          exact hclear.write (by simpa [Scan.ip, Scan.mask] using hfits)

end

/-- The reading ends with the complete triples in the table and nothing else exactly for the proper
texts, whatever is stored for a number that is no `int`. -/
theorem config_file_read_iff (old : Nat → ConfigEntry) (text : List Char) :
    (∀ undefined, ∃ fuel table, getDpdkIpStackConfig undefined fuel old text = some table ∧
      Holds table 0 (triples configEntries text)) ↔ Proper false configEntries text := by
  have hclear : Clear ⟨fun i => { old i with portNumber := -1 }, false⟩ 0 := ⟨fun _ _ => rfl, rfl⟩
  constructor
  · intro h
    obtain ⟨fuel, table, hread, hholds⟩ := h fun _ => 0
    exact proper_of_read hread hholds rfl hclear
  · intro h undefined
    exact h.read rfl (by decide) hclear

/-- Two triples and an incomplete line behind them. -/
theorem config_file_read_two_lines : ∀ undefined, ∃ fuel table,
    getDpdkIpStackConfig undefined fuel (fun _ => unusedEntry) "0 a b\n1 c d\n-1".toList =
      some table ∧ Holds table 0 (triples configEntries "0 a b\n1 c d\n-1".toList) := by
  refine (config_file_read_iff _ _).mpr ?_
  have hfirst : fscanf "0 a b\n1 c d\n-1".toList =
      .triple 0 ['a'] ['b'] "\n1 c d\n-1".toList := by decide +kernel
  have hsecond : fscanf "\n1 c d\n-1".toList = .triple 1 ['c'] ['d'] "\n-1".toList := by
    decide +kernel
  exact .triple hfirst (by decide) (by decide) fun _ =>
    .triple hsecond (by decide) (by decide) fun _ => .number (by decide +kernel)

theorem readEntries_letter (undefined : Int → Int32) (fuel i : Nat) (table : Table) :
    readEntries undefined fuel i table ['x'] false = none := by
  have hscan : fscanf ['x'] = .mismatch ['x'] := by decide +kernel
  induction fuel generalizing table with
  | zero => rfl
  | succ fuel ih => simpa [readEntries, hscan, Scan.rc, Scan.rest, Scan.eof] using ih _

theorem config_file_misread :
    (∀ undefined fuel old, getDpdkIpStackConfig undefined fuel old ['x'] = none) ∧
      (getDpdkIpStackConfig (fun _ => 0) 1 (fun _ => unusedEntry) "5 a".toList).map
        (fun table => (table.entry 0).portNumber) = some 5 ∧
      (triples configEntries "5 a".toList).length = 0 ∧
      (getDpdkIpStackConfig (fun _ => 0) 1 (fun _ => unusedEntry)
        "5 aaaaaaaaaaaaaaaaaaaaaaaaa b".toList).map Table.overrun = some true :=
  ⟨fun undefined fuel _ => readEntries_letter undefined fuel 0 _, by decide +kernel,
    by decide +kernel, by decide +kernel⟩

end LightStack.Libinit
