import LANScan.Basic
import LANScan.Reactive.Signal

/-!
# The address of the WiFi interface

`getWiFiAddress` walks the list of interface entries and keeps the numeric text of
the last IPv4 or IPv6 entry of `en0`; `getIPPrefix` drops the last dotted
component of it.  The text is `getnameinfo`'s, which is a parameter: a
`NumericHost` carries the two documented facts that are relied on, that an IPv4
address is four decimals joined by dots, and that the first separator of an IPv6
address is a colon.

## Main definitions

* `SockAddr`, `Ifaddrs`, `NumericHost` — the entries and their text.
* `getWiFiAddress`, `getIPPrefix`.
* `InetLast` — no `en0` IPv6 entry comes after the IPv4 one.

## Main results

* `getWiFiAddress_eq` — the walk in closed form: a trap on a `NULL` address
  anywhere, the last `en0` text otherwise.
* `getIPPrefix_eq_subnet_iff` — **the prefix is the subnet of the `en0` IPv4
  address exactly when nothing is `NULL` and that entry comes last.**
-/

namespace LANScan

open Reactive (Crash)

/-- A socket address, by its family. -/
inductive SockAddr
  /-- `AF_INET`. -/
  | inet (a b c d : UInt8)
  /-- `AF_INET6`: the eight groups and the scope. -/
  | inet6 (groups : Vector UInt16 8) (scope : ℕ)
  /-- Any other family. -/
  | other
  deriving DecidableEq, Repr

/-- The family is `AF_INET` or `AF_INET6`. -/
def SockAddr.isInternet : SockAddr → Bool
  | inet .. => true
  | inet6 .. => true
  | other => false

/-- One entry of the list `getifaddrs` returns. -/
structure Ifaddrs where
  ifa_name : String
  /-- `none` is a `NULL` pointer. -/
  ifa_addr : Option SockAddr
  deriving DecidableEq, Repr

/-- `getnameinfo` with `NI_NUMERICHOST`. -/
structure NumericHost where
  text : SockAddr → String
  /-- IPv4 addresses are rendered as four decimals joined by dots. -/
  text_inet : ∀ a b c d, text (.inet a b c d) = dotted a b c d
  /-- IPv6 addresses are rendered as groups joined by colons. -/
  text_inet6 : ∀ groups scope, ∃ pre post,
    (text (.inet6 groups scope)).toList = pre ++ ':' :: post ∧ '.' ∉ pre

/-- A hexadecimal group contains no dot. -/
theorem dot_notMem_hexadecimal (n : ℕ) : '.' ∉ Nat.toDigits 16 n := by
  induction n using Nat.strongRecOn with
  | _ n ih =>
    rw [Nat.toDigits_eq_if (by decide)]
    split
    · simp
    · rename_i h
      rw [List.mem_append, not_or]
      exact ⟨ih _ (by omega), by simp⟩

/-- A `getnameinfo` that does not shorten runs of zero groups. -/
def NumericHost.uncompressed : NumericHost where
  text
    | .inet a b c d => dotted a b c d
    | .inet6 groups _ =>
      joined ":" (groups.toList.map fun g => String.ofList (Nat.toDigits 16 g.toNat))
    | .other => ""
  text_inet := fun _ _ _ _ => rfl
  text_inet6 := by
    intro groups scope
    obtain ⟨⟨l⟩, hl⟩ := groups
    match l, hl with
    | g :: g' :: l, _ =>
      refine ⟨Nat.toDigits 16 g.toNat, (joined ":" ((g' :: l).map fun g =>
        String.ofList (Nat.toDigits 16 g.toNat))).toList, ?_, dot_notMem_hexadecimal _⟩
      simp [joined]

/-! ### The walk over the interfaces -/

/-- The body of the loop over the interface entries, with the address so far.
Reading the family of a `NULL` address traps.  The source hands over a copy of 16 bytes with
the length of the original, which is 28 for IPv6: the groups and the scope of an IPv6 entry
are what is read there, whatever that is. -/
def visit (getnameinfo : NumericHost) (address : Option String) (interface : Ifaddrs) :
    Except Crash (Option String) :=
  match interface.ifa_addr with
  | none => .error .forced
  | some addr =>
    if addr.isInternet then
      if interface.ifa_name == "en0" then .ok (some (getnameinfo.text addr)) else .ok address
    else .ok address

/-- `getifaddrs` is `none` when the call fails. -/
def getWiFiAddress (getnameinfo : NumericHost) (getifaddrs : Option (List Ifaddrs)) :
    Except Crash (Option String) :=
  match getifaddrs with
  | none => .ok none
  | some [] => .ok none
  | some interfaces => interfaces.foldlM (visit getnameinfo) none

/-- The address without its last component, or the text that stands for no address. -/
def getIPPrefix (getnameinfo : NumericHost) (getifaddrs : Option (List Ifaddrs)) :
    Except Crash String := do
  let some ip ← getWiFiAddress getnameinfo getifaddrs | return Constants.noWifiAddress
  -- `removeLast` needs an element, and splitting always gives one
  let ipArr := (components '.' ip).dropLast
  return joined "." ipArr

/-- The text an entry contributes: that of `en0` entries of an internet family. -/
def wifiText (getnameinfo : NumericHost) (e : Ifaddrs) : Option String :=
  match e.ifa_addr with
  | some addr =>
    if addr.isInternet && e.ifa_name == "en0" then some (getnameinfo.text addr) else none
  | none => none

theorem visit_of_some {gni : NumericHost} {acc : Option String} {e : Ifaddrs}
    (h : e.ifa_addr ≠ none) : visit gni acc e = .ok ((wifiText gni e).or acc) := by
  unfold visit wifiText
  cases ha : e.ifa_addr with
  | none => exact absurd ha h
  | some addr =>
    by_cases hn : e.ifa_name = "en0" <;> by_cases hi : addr.isInternet = true <;> simp [hn, hi]

theorem foldlM_visit {gni : NumericHost} : ∀ (l : List Ifaddrs) (acc : Option String),
    l.foldlM (visit gni) acc =
      if ∃ e ∈ l, e.ifa_addr = none then .error .forced
      else .ok ((l.filterMap (wifiText gni)).getLast?.or acc) := by
  intro l
  induction l with
  | nil => intro acc; simp; rfl
  | cons e l ih =>
    intro acc
    rw [List.foldlM_cons]
    by_cases he : e.ifa_addr = none
    · have herr : visit gni acc e = .error .forced := by simp [visit, he]
      rw [herr, if_pos ⟨e, List.mem_cons_self, he⟩]
      rfl
    · rw [visit_of_some he]
      have hbind : (Except.ok ((wifiText gni e).or acc) >>= fun a => l.foldlM (visit gni) a) =
          l.foldlM (visit gni) ((wifiText gni e).or acc) := rfl
      rw [hbind, ih]
      have hex : (∃ e' ∈ e :: l, e'.ifa_addr = none) ↔ ∃ e' ∈ l, e'.ifa_addr = none := by
        simp [he]
      simp only [hex]
      split
      · rfl
      · cases hw : wifiText gni e with
        | none => simp [hw]
        | some t => cases hl : l.filterMap (wifiText gni) <;> simp [hw, hl, List.getLast?_cons]

/-- **The walk in closed form.** -/
theorem getWiFiAddress_eq (gni : NumericHost) (l : List Ifaddrs) :
    getWiFiAddress gni (some l) =
      if ∃ e ∈ l, e.ifa_addr = none then .error .forced
      else .ok (l.filterMap (wifiText gni)).getLast? := by
  cases l with
  | nil => simp [getWiFiAddress]
  | cons e l =>
    have h : (e :: l).foldlM (visit gni) none = _ := foldlM_visit (e :: l) none
    simpa [getWiFiAddress] using h

/-- The prefix of an address text. -/
def prefixOf (ip : String) : String := joined "." (components '.' ip).dropLast

theorem getIPPrefix_of_ok {gni : NumericHost} {ifs : Option (List Ifaddrs)} {ip : Option String}
    (h : getWiFiAddress gni ifs = .ok ip) :
    getIPPrefix gni ifs = .ok (ip.elim Constants.noWifiAddress prefixOf) := by
  unfold getIPPrefix
  rw [h]
  cases ip <;> rfl

theorem getIPPrefix_of_error {gni : NumericHost} {ifs : Option (List Ifaddrs)} {c : Crash}
    (h : getWiFiAddress gni ifs = .error c) : getIPPrefix gni ifs = .error c := by
  unfold getIPPrefix
  rw [h]
  rfl

/-! ### The prefix of a text -/

@[simp] theorem prefixOf_dotted (a b c d : UInt8) : prefixOf (dotted a b c d) = subnet a b c :=
  joined_dropLast_components_dotted a b c d

/-- An IPv6 text leaves nothing or a text with a colon in it. -/
theorem prefixOf_inet6 (gni : NumericHost) (groups : Vector UInt16 8) (scope : ℕ) :
    prefixOf (gni.text (.inet6 groups scope)) = "" ∨
      ':' ∈ (prefixOf (gni.text (.inet6 groups scope))).toList := by
  obtain ⟨pre, post, htext, hpre⟩ := gni.text_inet6 groups scope
  obtain ⟨p, ps, hps⟩ := List.exists_cons_of_ne_nil (List.splitOn_ne_nil '.' post)
  -- the colon is in the first component
  have hsplit : ∀ pre : List Char, '.' ∉ pre →
      (pre ++ ':' :: post).splitOn '.' = (pre ++ ':' :: p) :: ps := by
    intro pre
    induction pre with
    | nil =>
      intro _
      rw [List.nil_append, List.splitOn_cons_eq_if_modifyHead, hps]
      rfl
    | cons ch pre ih =>
      intro hch
      have hne : (ch == '.') = false := by
        simp only [beq_eq_false_iff_ne]
        rintro rfl
        exact hch List.mem_cons_self
      rw [List.cons_append, List.splitOn_cons_eq_if_modifyHead,
        ih fun h => hch (List.mem_cons_of_mem _ h)]
      simp [hne]
  rw [prefixOf, components, htext, hsplit pre hpre]
  cases ps with
  | nil => exact Or.inl rfl
  | cons q qs =>
    apply Or.inr
    rw [joined, String.toList_intercalate, List.map_cons, List.dropLast_cons_of_ne_nil (by simp),
      List.map_cons, String.toList_ofList]
    cases (List.map String.ofList (q :: qs)).dropLast <;> simp

/-- The prefix of an `en0` text is never the marker for a missing address. -/
theorem prefixOf_wifiText_ne_noWifiAddress {gni : NumericHost} {e : Ifaddrs} {t : String}
    (h : wifiText gni e = some t) : prefixOf t ≠ Constants.noWifiAddress := by
  unfold wifiText at h
  split at h
  next addr _ =>
    obtain ⟨hint, rfl⟩ : addr.isInternet = true ∧ gni.text addr = t := by
      split at h <;> simp_all
    cases addr with
    | inet a b c d =>
      rw [gni.text_inet, prefixOf_dotted]
      exact subnet_ne_noWifiAddress a b c
    | inet6 groups scope =>
      intro heq
      rcases prefixOf_inet6 gni groups scope with hp | hp <;> rw [heq] at hp
      · exact absurd hp (by decide)
      · exact absurd hp (by decide)
    | other => cases hint
  next => cases h

/-! ### When the prefix is the subnet -/

/-- An IPv4 entry of `en0`. -/
def Ifaddrs.isWifiInet (e : Ifaddrs) : Bool :=
  e.ifa_name == "en0" && match e.ifa_addr with
    | some (.inet ..) => true
    | _ => false

/-- An IPv6 entry of `en0`. -/
def Ifaddrs.isWifiInet6 (e : Ifaddrs) : Bool :=
  e.ifa_name == "en0" && match e.ifa_addr with
    | some (.inet6 ..) => true
    | _ => false

/-- No entry has a `NULL` address, and no IPv6 entry of `en0` comes after its
IPv4 entry `a.b.c.d`. -/
def InetLast (a b c d : UInt8) (l : List Ifaddrs) : Prop :=
  (∀ e ∈ l, e.ifa_addr ≠ none) ∧
    ∃ pre post, l = pre ++ ⟨"en0", some (.inet a b c d)⟩ :: post ∧
      ∀ e ∈ post, e.isWifiInet6 = false

theorem wifiText_eq_none_iff {gni : NumericHost} {e : Ifaddrs} :
    wifiText gni e = none ↔ e.isWifiInet = false ∧ e.isWifiInet6 = false := by
  unfold wifiText Ifaddrs.isWifiInet Ifaddrs.isWifiInet6
  rcases e with ⟨name, _ | addr⟩
  · simp
  · cases addr <;> cases hn : name == "en0" <;> simp [SockAddr.isInternet]

/-- The text an entry after the IPv4 one contributes is that of an IPv6 address. -/
theorem exists_inet6_of_wifiText {gni : NumericHost} {e : Ifaddrs} {t : String}
    (hinet : e.isWifiInet = false) (ht : wifiText gni e = some t) :
    ∃ groups scope, t = gni.text (.inet6 groups scope) := by
  rcases e with ⟨name, _ | addr⟩
  · simp [wifiText] at ht
  · unfold wifiText at ht
    unfold Ifaddrs.isWifiInet at hinet
    cases addr with
    | inet => cases hn : name == "en0" <;> simp_all
    | inet6 groups scope =>
      simp only [Option.ite_none_right_eq_some, Option.some.injEq] at ht
      exact ⟨groups, scope, ht.2.symm⟩
    | other => simp [SockAddr.isInternet] at ht

/-- An element a filter keeps alone has nothing kept before or after it. -/
theorem filter_eq_nil_of_filter_eq_singleton {β : Type} {p : β → Bool} {pre post : List β} {x : β}
    (h : (pre ++ x :: post).filter p = [x]) (hx : p x = true) :
    pre.filter p = [] ∧ post.filter p = [] := by
  have hlen := congrArg List.length h
  rw [List.filter_append, List.filter_cons_of_pos hx] at hlen
  simp only [List.length_append, List.length_cons, List.length_nil] at hlen
  exact ⟨List.length_eq_zero_iff.mp (by omega), List.length_eq_zero_iff.mp (by omega)⟩

/-- **The prefix is the subnet of the IPv4 address of `en0` exactly when no entry
is `NULL` and no IPv6 entry of `en0` comes after the IPv4 one.** -/
theorem getIPPrefix_eq_subnet_iff (gni : NumericHost) {a b c d : UInt8} {l : List Ifaddrs}
    (hone : l.filter Ifaddrs.isWifiInet = [⟨"en0", some (.inet a b c d)⟩]) :
    getIPPrefix gni (some l) = .ok (subnet a b c) ↔ InetLast a b c d l := by
  have hinet : wifiText gni ⟨"en0", some (.inet a b c d)⟩ = some (dotted a b c d) := by
    simp [wifiText, SockAddr.isInternet, gni.text_inet]
  by_cases hnull : ∃ e ∈ l, e.ifa_addr = none
  · -- the walk traps
    have herr := getWiFiAddress_eq gni l
    rw [if_pos hnull] at herr
    rw [getIPPrefix_of_error herr]
    obtain ⟨e, he, hnone⟩ := hnull
    constructor
    · intro h
      cases h
    · intro h
      exact absurd hnone (h.1 e he)
  have hok := getWiFiAddress_eq gni l
  rw [if_neg hnull] at hok
  rw [getIPPrefix_of_ok hok]
  have hsome : ∀ e ∈ l, e.ifa_addr ≠ none := fun e he h => hnull ⟨e, he, h⟩
  constructor
  · intro h
    refine ⟨hsome, ?_⟩
    obtain ⟨pre, post, rfl⟩ := List.append_of_mem
      (List.mem_of_mem_filter (hone.symm ▸ List.mem_singleton_self _))
    refine ⟨pre, post, rfl, ?_⟩
    obtain ⟨-, hpost⟩ := filter_eq_nil_of_filter_eq_singleton hone rfl
    have hpost : ∀ e ∈ post, e.isWifiInet = false := by
      simpa [List.filter_eq_nil_iff] using hpost
    by_contra hne
    -- an IPv6 entry comes later, so the text kept is that of an IPv6 address
    have hmap : post.filterMap (wifiText gni) ≠ [] := by
      intro hnil
      refine hne fun e he => ?_
      exact (wifiText_eq_none_iff.mp (List.filterMap_eq_nil_iff.mp hnil e he)).2
    have hlast : ((pre ++ ⟨"en0", some (.inet a b c d)⟩ :: post).filterMap (wifiText gni)).getLast? =
        some ((post.filterMap (wifiText gni)).getLast hmap) := by
      rw [List.filterMap_append, List.filterMap_cons_some hinet,
        List.getLast?_append_of_ne_nil _ (by simp), List.getLast?_cons,
        List.getLast?_eq_some_getLast hmap]
      rfl
    obtain ⟨e, he, ht⟩ := List.mem_filterMap.mp (List.getLast_mem hmap)
    obtain ⟨groups, scope, hbs⟩ := exists_inet6_of_wifiText (hpost e he) ht
    rw [hlast, hbs] at h
    have heq : prefixOf (gni.text (.inet6 groups scope)) = subnet a b c := Except.ok.inj h
    rcases prefixOf_inet6 gni groups scope with hp | hp <;> rw [heq] at hp
    · exact subnet_ne_empty a b c hp
    · exact colon_notMem_subnet a b c hp
  · rintro ⟨-, pre, post, rfl, hpost⟩
    obtain ⟨-, hinetpost⟩ := filter_eq_nil_of_filter_eq_singleton hone rfl
    have hnil : post.filterMap (wifiText gni) = [] := by
      refine List.filterMap_eq_nil_iff.mpr fun e he => wifiText_eq_none_iff.mpr ⟨?_, hpost e he⟩
      simpa using List.filter_eq_nil_iff.mp hinetpost e he
    have hlast : ((pre ++ ⟨"en0", some (.inet a b c d)⟩ :: post).filterMap (wifiText gni)).getLast? =
        some (dotted a b c d) := by
      rw [List.filterMap_append, List.filterMap_cons_some hinet, hnil, List.getLast?_append]
      rfl
    rw [hlast]
    simp

end LANScan
