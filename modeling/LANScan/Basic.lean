import Mathlib.Data.List.Basic
import Mathlib.Data.Nat.Notation

/-!
# Constants, hosts and dotted text

The constants of the program, the `Host` record that the pipeline fills in step
by step, and the little that is used of strings: splitting at a character,
joining, and the decimal text of a number.  Addresses are built by joining
decimals with dots, and the in-band markers contain no dot, which is what keeps
the two apart.

## Main definitions

* `Constants`, `Host`.
* `components`, `joined` — `components(separatedBy:)` and `joined(separator:)`.
* `dotted`, `subnet`, `address` — the texts `a.b.c.d`, `a.b.c` and `p.n`.
-/

namespace LANScan

namespace Constants

/-- Sent by a ping signal in place of an address when nothing answered. -/
def pingHostNotFound : String := "PING_HOST_NOT_FOUND"

/-- The prefix when the WiFi interface has no address. -/
def noWifiAddress : String := "NO_WIFI_ADDRESS"

/-- Sent by a port signal in place of a port number when nothing listens. -/
def noService : String := "NO_SERVICE"

/-- The title of the warning that there is no WiFi. -/
def notificationNoWifiTitle : String := "No WiFi"

/-- The text of that warning. -/
def notificationNoWifiBody : String := "You must be connected to WiFi network to continue."

/-- Its only button. -/
def okButtonLabel : String := "OK"

/-- The status before the first scan. -/
def statusTitleIdle : String := "Scan the local network"

/-- The status during a scan. -/
def statusTitleScanning : String := "Scanning..."

/-- The status after a scan, behind the number of hosts. -/
def statusTitleHostsFound : String := "hosts found"

/-- The manufacturer when the vendor service has no answer. -/
def manufacturerNotFound : String := "Vendor not found"

end Constants

/-- A host found by a scan. -/
structure Host where
  ipAddress : Option String
  hostname : Option String
  macAddress : Option String
  manufacturer : Option String
  deriving DecidableEq, Repr

/-! ### Splitting and joining -/

/-- `components(separatedBy:)` for a one-character separator. -/
def components (sep : Char) (s : String) : List String := (s.toList.splitOn sep).map String.ofList

/-- `joined(separator:)`. -/
def joined (sep : String) (parts : List String) : String := sep.intercalate parts

/-- Splitting undoes joining when no part contains the separator. -/
theorem components_joined {sep : Char} {parts : List String} (hne : parts ≠ [])
    (hparts : ∀ p ∈ parts, sep ∉ p.toList) :
    components sep (joined (String.ofList [sep]) parts) = parts := by
  have hsplit : ([sep].intercalate (parts.map String.toList)).splitOn sep =
      parts.map String.toList :=
    List.splitOn_intercalate sep (by simpa using hparts) (by simpa using hne)
  rw [components, joined, String.toList_intercalate, String.toList_ofList, hsplit, List.map_map]
  exact (List.map_congr_left fun p _ => String.ofList_toList).trans (List.map_id parts)

/-! ### Decimals -/

theorem toList_toString (n : ℕ) : (toString n).toList = Nat.toDigits 10 n :=
  Nat.toList_repr

/-- A decimal is made of digits. -/
theorem isDigit_of_mem_decimal {n : ℕ} {ch : Char} (h : ch ∈ Nat.toDigits 10 n) :
    ch.isDigit = true :=
  Nat.isDigit_of_mem_toDigits (by decide) (by decide) h

theorem dot_notMem_decimal (n : ℕ) : '.' ∉ Nat.toDigits 10 n := fun h =>
  absurd (isDigit_of_mem_decimal h) (by decide)

theorem colon_notMem_decimal (n : ℕ) : ':' ∉ Nat.toDigits 10 n := fun h =>
  absurd (isDigit_of_mem_decimal h) (by decide)

theorem toString_injective {m n : ℕ} (h : toString m = toString n) : m = n := by
  have hl : Nat.toDigits 10 m = Nat.toDigits 10 n := by
    rw [← toList_toString, h, toList_toString]
  rw [← Nat.ofDigitChars_ten_toDigits (n := m), hl, Nat.ofDigitChars_ten_toDigits]

/-! ### Dotted text -/

/-- The text of the IPv4 address with the given octets. -/
def dotted (a b c d : UInt8) : String := s!"{a.toNat}.{b.toNat}.{c.toNat}.{d.toNat}"

/-- The text of the subnet an address belongs to. -/
def subnet (a b c : UInt8) : String := s!"{a.toNat}.{b.toNat}.{c.toNat}"

/-- The text of host `n` of the subnet `p`. -/
def address (p : String) (n : ℕ) : String := s!"{p}.{n}"

@[simp] theorem toList_dot : (toString ".").toList = ['.'] := rfl

theorem toList_address (p : String) (n : ℕ) :
    (address p n).toList = p.toList ++ '.' :: Nat.toDigits 10 n := by
  simp [address, String.toList_append]
  rfl

theorem dot_mem_address (p : String) (n : ℕ) : '.' ∈ (address p n).toList := by
  simp [toList_address]

/-- No address is the marker a ping signal sends when nothing answered. -/
theorem address_ne_pingHostNotFound (p : String) (n : ℕ) :
    address p n ≠ Constants.pingHostNotFound := by
  intro h
  have hdot := dot_mem_address p n
  rw [h] at hdot
  exact absurd hdot (by decide)

/-- No decimal is the marker a port signal sends when nothing listens. -/
theorem toString_ne_noService (n : ℕ) : toString n ≠ Constants.noService := by
  intro h
  have hN : 'N' ∈ Nat.toDigits 10 n := by
    rw [← toList_toString, h]
    decide
  exact absurd (isDigit_of_mem_decimal hN) (by decide)

/-- The hosts of one subnet have different addresses. -/
theorem address_injective (p : String) {m n : ℕ} (h : address p m = address p n) : m = n := by
  have hl : (address p m).toList = (address p n).toList := congrArg String.toList h
  rw [toList_address, toList_address, List.append_cancel_left_eq, List.cons.injEq] at hl
  exact toString_injective (String.toList_inj.mp (by simpa using hl.2))

theorem dotted_eq_joined (a b c d : UInt8) :
    dotted a b c d =
      joined "." [toString a.toNat, toString b.toNat, toString c.toNat, toString d.toNat] := by
  apply String.toList_inj.mp
  simp [dotted, joined, String.toList_append]

theorem subnet_eq_joined (a b c : UInt8) :
    subnet a b c = joined "." [toString a.toNat, toString b.toNat, toString c.toNat] := by
  apply String.toList_inj.mp
  simp [subnet, joined, String.toList_append]

/-- Dropping the last component of a dotted address leaves its subnet. -/
theorem joined_dropLast_components_dotted (a b c d : UInt8) :
    joined "." (components '.' (dotted a b c d)).dropLast = subnet a b c := by
  have hparts : ∀ p ∈ [toString a.toNat, toString b.toNat, toString c.toNat, toString d.toNat],
      '.' ∉ p.toList := by
    intro p hp
    simp only [List.mem_cons, List.not_mem_nil, or_false] at hp
    rcases hp with rfl | rfl | rfl | rfl <;> simp [dot_notMem_decimal]
  have hcomp := components_joined (by simp) hparts
  have hdot : String.ofList ['.'] = "." := by decide
  rw [hdot, ← dotted_eq_joined] at hcomp
  rw [hcomp, subnet_eq_joined]
  rfl

theorem colon_notMem_subnet (a b c : UInt8) : ':' ∉ (subnet a b c).toList := by
  simp [subnet, String.toList_append, colon_notMem_decimal]

theorem subnet_ne_empty (a b c : UInt8) : subnet a b c ≠ "" := by
  intro h
  have hl : (subnet a b c).toList = [] := by rw [h]; rfl
  simp [subnet, String.toList_append] at hl

theorem subnet_ne_noWifiAddress (a b c : UInt8) : subnet a b c ≠ Constants.noWifiAddress := by
  intro h
  have hdot : '.' ∈ (subnet a b c).toList := by simp [subnet, String.toList_append]
  rw [h] at hdot
  exact absurd hdot (by decide)

end LANScan
