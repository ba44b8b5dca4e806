import SkyAccel.Lib.Bytes
import SkyAccel.Lib.Strings

/-!
# Addresses as text

The parts of Go's `strconv` and `net` that turn numbers and IP addresses into
text and back: `Itoa`, `ParseUint` with its error dropped, `IP.String` of an IPv4
address, `ParseIP` followed by `To4`, and `JoinHostPort`. An IPv4 address is the
number its four bytes spell.
-/

namespace SkyAccel.Net

open Strings (join split contains)

/-! ## Numbers -/

/-- `strconv.Itoa` of a number that is not negative. -/
def itoa (n : Nat) : String := n.repr

def digitValue (c : Char) : Nat := c.toNat - '0'.toNat

/-- The loop of `strconv.ParseUint` in base 10. What it returns beside an error
is 0 for a wrong character and the largest value when the number is too large. -/
def parseDigits (maxVal : Nat) : Nat → List Char → Nat
  | n, [] => n
  | n, c :: cs =>
    if c.isDigit then
      if maxVal < n * 10 + digitValue c then maxVal
      else parseDigits maxVal (n * 10 + digitValue c) cs
    else 0

/-- The value of `strconv.ParseUint(s, 10, 16)`, whatever its error. -/
def parseUint16 (s : String) : UInt16 := UInt16.ofNat (parseDigits 65535 0 s.toList)

theorem parseDigits_eq (maxVal : Nat) {cs : List Char} (digits : ∀ c ∈ cs, c.isDigit = true)
    (n : Nat) (fits : Nat.ofDigitChars 10 cs n ≤ maxVal) :
    parseDigits maxVal n cs = Nat.ofDigitChars 10 cs n := by
  induction cs generalizing n with
  | nil => rfl
  | cons c cs ih =>
    have step : Nat.ofDigitChars 10 (c :: cs) n = Nat.ofDigitChars 10 cs (n * 10 + digitValue c) := by
      rw [Nat.ofDigitChars_cons, Nat.mul_comm]
      rfl
    have grows : n * 10 + digitValue c ≤ Nat.ofDigitChars 10 cs (n * 10 + digitValue c) := by
      rw [Nat.ofDigitChars_eq_ofDigitChars_zero]
      have scale : 1 ≤ 10 ^ cs.length := Nat.one_le_pow _ _ (by decide)
      exact (Nat.le_mul_of_pos_left _ scale).trans (Nat.le_add_right _ _)
    rw [step] at fits ⊢
    rw [parseDigits, if_pos (digits c List.mem_cons_self), if_neg (by omega)]
    exact ih (fun d hd => digits d (List.mem_cons_of_mem _ hd)) _ fits

theorem itoa_digits (n : Nat) : ∀ c ∈ (itoa n).toList, c.isDigit = true := by
  intro c hc
  rw [itoa, Nat.toList_repr] at hc
  exact Nat.isDigit_of_mem_toDigits (by decide) (by decide) hc

@[simp] theorem parseUint16_itoa (port : UInt16) : parseUint16 (itoa port.toNat) = port := by
  have value : Nat.ofDigitChars 10 (itoa port.toNat).toList 0 = port.toNat := by
    rw [itoa, Nat.toList_repr, Nat.ofDigitChars_ten_toDigits]
  have small := port.toNat_lt
  rw [parseUint16, parseDigits_eq 65535 (itoa_digits _) 0 (by omega), value, UInt16.ofNat_toNat]

/-! ## IPv4 addresses -/

/-- `IP.String` of an IPv4 address. -/
def ipString (ip : UInt32) : String :=
  join ((Bytes.putUint32 ip).map fun b => itoa b.toNat) "."

/-- One field of a dotted address: decimal, at most 255, without a leading zero. -/
def parseOctet (s : String) : Option UInt8 :=
  let cs := s.toList
  if cs ≠ [] ∧ cs.all Char.isDigit ∧ (cs.length = 1 ∨ cs.head? ≠ some '0') ∧
      Nat.ofDigitChars 10 cs 0 ≤ 255 then
    some (UInt8.ofNat (Nat.ofDigitChars 10 cs 0))
  else none

def parseIPv4 (s : String) : Option UInt32 :=
  match (split s ".").mapM parseOctet with
  | some fields => if fields.length = 4 then some (Bytes.uint32 fields) else none
  | none => none

/-! ## IPv6 text -/

def hexValue (c : Char) : Option Nat :=
  if '0' ≤ c ∧ c ≤ '9' then some (c.toNat - '0'.toNat)
  else if 'a' ≤ c ∧ c ≤ 'f' then some (c.toNat - 'a'.toNat + 10)
  else if 'A' ≤ c ∧ c ≤ 'F' then some (c.toNat - 'A'.toNat + 10)
  else none

/-- The fields of an IPv6 address from `s` on, after the bytes `ip`; `ellipsis`
is where the double colon stands. -/
def parseFields : Nat → List Char → List UInt8 → Option Nat → Option (List UInt8 × Option Nat)
  | 0, s, ip, ellipsis => if s = [] then some (ip, ellipsis) else none
  | fuel + 1, s, ip, ellipsis =>
    let digits := s.takeWhile fun c => (hexValue c).isSome
    let rest := s.dropWhile fun c => (hexValue c).isSome
    if digits.length = 0 ∨ 4 < digits.length then none
    else
      match rest with
      | '.' :: _ =>
        if (ellipsis = none ∧ ip.length ≠ 12) ∨ 16 < ip.length + 4 then none
        else (parseIPv4 (String.ofList s)).map fun v4 => (ip ++ Bytes.putUint32 v4, ellipsis)
      | _ =>
        let acc := digits.foldl (fun n c => n * 16 + (hexValue c).getD 0) 0
        let ip := ip ++ Bytes.bigEndian 2 acc
        match rest with
        | [] => some (ip, ellipsis)
        | ':' :: ':' :: rest =>
          if ellipsis.isSome then none
          else if rest = [] then some (ip, some ip.length)
          else parseFields fuel rest ip (some ip.length)
        | ':' :: c :: rest => parseFields fuel (c :: rest) ip ellipsis
        | _ => none

/-- `netip.parseIPv6`, for text without a zone. -/
def parseIPv6 (s : String) : Option (List UInt8) :=
  let start := match s.toList with
    | ':' :: ':' :: rest => if rest = [] then some ([], some 0) else parseFields 8 rest [] (some 0)
    | cs => parseFields 8 cs [] none
  match start with
  | none => none
  | some (ip, none) => if ip.length = 16 then some ip else none
  | some (ip, some e) =>
    if ip.length < 16 then some (ip.take e ++ List.replicate (16 - ip.length) 0 ++ ip.drop e)
    else none

/-- `net.ParseIP` followed by `To4`: the first dot or colon decides the family,
a zone is refused, and of the IPv6 addresses only the mapped ones are IPv4. -/
def parseIPTo4 (s : String) : Option UInt32 :=
  match s.toList.find? fun c => c == '.' || c == ':' || c == '%' with
  | some '.' => parseIPv4 s
  | some ':' =>
    if contains s "%" then none
    else
      match parseIPv6 s with
      | some ip =>
        if ip.take 12 = List.replicate 10 0 ++ [255, 255] then some (Bytes.uint32 (ip.drop 12))
        else none
      | none => none
  | _ => none

def joinHostPort (host port : String) : String :=
  if contains host ":" || contains host "%" then "[" ++ host ++ "]:" ++ port
  else host ++ ":" ++ port

/-! ## Reading back what was written -/

theorem char_unbordered {sep : String} {c : Char} (h : sep.toList = [c]) :
    Strings.Unbordered sep.toList := by
  rw [h]
  rintro u v eq hu hv -
  have len := congrArg List.length eq
  have hu' := List.length_pos_iff.mpr hu
  have hv' := List.length_pos_iff.mpr hv
  rw [List.length_singleton, List.length_append] at len
  omega

theorem contains_char {s sub : String} {c : Char} (hsub : sub.toList = [c]) :
    contains s sub = false ↔ c ∉ s.toList := by
  rw [Bool.eq_false_iff, Ne, Strings.contains_iff, hsub, List.singleton_infix_iff]

theorem itoa_free (n : Nat) {sub : String} {c : Char} (hsub : sub.toList = [c])
    (hc : c.isDigit = false) : contains (itoa n) sub = false := by
  rw [contains_char hsub]
  intro mem
  rw [itoa_digits n c mem] at hc
  cases hc

theorem parseOctet_itoa (b : UInt8) : parseOctet (itoa b.toNat) = some b := by
  have all : ∀ n : Fin 256, parseOctet (itoa n.val) = some (UInt8.ofNat n.val) := by decide +kernel
  have := all ⟨b.toNat, b.toNat_lt⟩
  rwa [UInt8.ofNat_toNat] at this

/-- An address is written as four numbers with dots between them. -/
theorem ipString_fields (ip : UInt32) : ∃ a b c d : UInt8, Bytes.putUint32 ip = [a, b, c, d] ∧
    ipString ip = join [itoa a.toNat, itoa b.toNat, itoa c.toNat, itoa d.toNat] "." := by
  have len := Bytes.length_putUint32 ip
  match h : Bytes.putUint32 ip, len with
  | [a, b, c, d], _ => exact ⟨a, b, c, d, rfl, by rw [ipString, h]; rfl⟩

theorem parseIPv4_join {w x y z : String} (hw : contains w "." = false)
    (hx : contains x "." = false) (hy : contains y "." = false) (hz : contains z "." = false) :
    parseIPv4 (join [w, x, y, z] ".") = match [w, x, y, z].mapM parseOctet with
      | some fields => if fields.length = 4 then some (Bytes.uint32 fields) else none
      | none => none := by
  have parts : split (join [w, x, y, z] ".") "." = [w, x, y, z] := by
    refine Strings.split_join (char_unbordered rfl) (by decide) (List.cons_ne_nil _ _) ?_
    intro s hs
    simp only [List.mem_cons, List.not_mem_nil, or_false] at hs
    rcases hs with rfl | rfl | rfl | rfl
    · exact hw
    · exact hx
    · exact hy
    · exact hz
  rw [parseIPv4, parts]

theorem parseIPv4_ipString (ip : UInt32) : parseIPv4 (ipString ip) = some ip := by
  obtain ⟨a, b, c, d, bytes, text⟩ := ipString_fields ip
  have back := Bytes.uint32_putUint32 ip []
  rw [List.append_nil, bytes] at back
  rw [text, parseIPv4_join (itoa_free _ rfl rfl) (itoa_free _ rfl rfl) (itoa_free _ rfl rfl)
    (itoa_free _ rfl rfl)]
  simp [parseOctet_itoa, back]

theorem ipString_chars (ip : UInt32) : ∀ c ∈ (ipString ip).toList, c.isDigit = true ∨ c = '.' := by
  obtain ⟨w, x, y, z, -, text⟩ := ipString_fields ip
  intro c hc
  rw [text, join, String.toList_intercalate] at hc
  simp only [List.intercalate, List.map_cons, List.map_nil, List.intersperse, List.flatten_cons,
    List.flatten_nil, List.mem_append, List.append_nil] at hc
  have dot : c ∈ ".".toList → c = '.' := by
    intro h
    exact List.mem_singleton.mp h
  rcases hc with h | h | h | h | h | h | h
  · exact .inl (itoa_digits _ c h)
  · exact .inr (dot h)
  · exact .inl (itoa_digits _ c h)
  · exact .inr (dot h)
  · exact .inl (itoa_digits _ c h)
  · exact .inr (dot h)
  · exact .inl (itoa_digits _ c h)

theorem ipString_free (ip : UInt32) {sub : String} {c : Char} (hsub : sub.toList = [c])
    (hc : c.isDigit = false) (hdot : c ≠ '.') : contains (ipString ip) sub = false := by
  rw [contains_char hsub]
  intro mem
  rcases ipString_chars ip c mem with h | h
  · rw [h] at hc; cases hc
  · exact hdot h

/-- Text that begins with an address is taken for IPv4. -/
theorem parseIPTo4_append (ip : UInt32) (t : String) :
    parseIPTo4 (ipString ip ++ t) = parseIPv4 (ipString ip ++ t) := by
  have found : (ipString ip ++ t).toList.find?
      (fun c => c == '.' || c == ':' || c == '%') = some '.' := by
    rw [String.toList_append, List.find?_append]
    cases first : (ipString ip).toList.find? (fun c => c == '.' || c == ':' || c == '%') with
    | none =>
      exfalso
      obtain ⟨w, x, y, z, -, text⟩ := ipString_fields ip
      have dot : '.' ∈ (ipString ip).toList := by
        rw [text, join, String.toList_intercalate]
        simp [List.intercalate, List.intersperse]
      simpa using List.find?_eq_none.mp first _ dot
    | some c =>
      have special := List.find?_some first
      rcases ipString_chars ip c (List.mem_of_find?_eq_some first) with digit | rfl
      · exfalso
        simp only [Bool.or_eq_true, beq_iff_eq] at special
        rcases special with (rfl | rfl) | rfl <;> cases digit
      · rfl
  rw [parseIPTo4, found]
  rfl

@[simp] theorem parseIPTo4_ipString (ip : UInt32) : parseIPTo4 (ipString ip) = some ip := by
  have := parseIPTo4_append ip ""
  rw [String.append_empty] at this
  rw [this, parseIPv4_ipString]

/-- An address with a port is no address. -/
theorem parseIPTo4_hostPort (ip : UInt32) (port : String) (hport : contains port "." = false) :
    parseIPTo4 (ipString ip ++ ":" ++ port) = none := by
  rw [String.append_assoc, parseIPTo4_append]
  obtain ⟨a, b, c, d, -, text⟩ := ipString_fields ip
  have shape : ipString ip ++ (":" ++ port) =
      join [itoa a.toNat, itoa b.toNat, itoa c.toNat, itoa d.toNat ++ (":" ++ port)] "." := by
    apply String.toList_inj.mp
    rw [text]
    simp [join]
  have last : contains (itoa d.toNat ++ (":" ++ port)) "." = false := by
    rw [contains_char rfl, String.toList_append, String.toList_append, List.mem_append,
      List.mem_append]
    rintro (h | h | h)
    · exact absurd (itoa_digits _ _ h) (by decide)
    · revert h; decide
    · exact (contains_char rfl).mp hport h
  have refused : parseOctet (itoa d.toNat ++ (":" ++ port)) = none := by
    unfold parseOctet
    rw [if_neg]
    rintro ⟨-, digits, -⟩
    rw [List.all_eq_true] at digits
    have := digits ':' (by simp)
    revert this; decide
  rw [shape, parseIPv4_join (itoa_free _ rfl rfl) (itoa_free _ rfl rfl) (itoa_free _ rfl rfl) last]
  simp [parseOctet_itoa, refused]

theorem ipString_injective {a b : UInt32} (h : ipString a = ipString b) : a = b :=
  Option.some.inj ((parseIPv4_ipString a).symm.trans (h ▸ parseIPv4_ipString b))

theorem joinHostPort_ipString (ip : UInt32) (port : String) :
    joinHostPort (ipString ip) port = ipString ip ++ ":" ++ port := by
  rw [joinHostPort, ipString_free ip rfl rfl (by decide), ipString_free ip rfl rfl (by decide)]
  rfl

theorem split_hostPort (ip : UInt32) (n : Nat) :
    split (ipString ip ++ ":" ++ itoa n) ":" = [ipString ip, itoa n] := by
  have shape : ipString ip ++ ":" ++ itoa n = join [ipString ip, itoa n] ":" := by
    apply String.toList_inj.mp
    simp [join]
  rw [shape]
  refine Strings.split_join (char_unbordered rfl) (by decide) (List.cons_ne_nil _ _) ?_
  intro s hs
  simp only [List.mem_cons, List.not_mem_nil, or_false] at hs
  rcases hs with rfl | rfl
  · exact ipString_free ip rfl rfl (by decide)
  · exact itoa_free n rfl rfl

/-! ## A host and a port -/

/-- The parts of a text around the last separator are determined by it. -/
theorem append_cons_inj {c : Char} {a b d e : List Char} (hd : c ∉ d) (he : c ∉ e)
    (h : a ++ c :: d = b ++ c :: e) : a = b ∧ d = e := by
  have half : ∀ {a b d e : List Char}, c ∉ d → ∀ rest, b = a ++ rest →
      c :: d = rest ++ c :: e → a = b ∧ d = e := by
    intro a b d e hd rest long same
    cases rest with
    | nil => exact ⟨by rw [long, List.append_nil], (List.cons.inj same).2⟩
    | cons x rest =>
      obtain ⟨-, same⟩ := List.cons.inj same
      exact absurd (same ▸ List.mem_append_right _ List.mem_cons_self) hd
  obtain ⟨rest, long, same⟩ | ⟨rest, long, same⟩ := List.append_eq_append_iff.mp h
  · exact half hd rest long same
  · obtain ⟨left, right⟩ := half he rest long same
    exact ⟨left.symm, right.symm⟩

theorem colon_free (n : Int) : ':' ∉ (toString n).toList := by
  intro mem
  cases n with
  | ofNat n => exact absurd (itoa_digits n _ mem) (by decide)
  | negSucc n =>
    have mem : ':' ∈ "-".toList ++ (itoa (n + 1)).toList := String.toList_append ▸ mem
    obtain sign | digit := List.mem_append.mp mem
    · exact absurd sign (by decide)
    · exact absurd (itoa_digits _ _ digit) (by decide)

theorem toString_int_inj {m n : Int} (h : toString m = toString n) : m = n := by
  have sign : ∀ a b : Nat, itoa a ≠ "-" ++ itoa b := by
    intro a b same
    have mem : '-' ∈ (itoa a).toList := by
      rw [same, String.toList_append]
      exact List.mem_append_left _ (by decide)
    exact absurd (itoa_digits a _ mem) (by decide)
  cases m with
  | ofNat m =>
    cases n with
    | ofNat n => exact congrArg Int.ofNat (Nat.repr_inj.mp h)
    | negSucc n => exact absurd h (sign m (n + 1))
  | negSucc m =>
    cases n with
    | ofNat n => exact absurd h.symm (sign n (m + 1))
    | negSucc n =>
      have same := Nat.repr_inj.mp ((String.append_right_inj "-").mp h)
      exact congrArg Int.negSucc (Nat.succ.inj same)

/-- A host and a port can be read off their joined text. -/
theorem host_port_inj {a b : String} {m n : Int}
    (h : a ++ ":" ++ toString m = b ++ ":" ++ toString n) : a = b ∧ m = n := by
  have chars := congrArg String.toList h
  simp only [String.toList_append, List.append_assoc] at chars
  obtain ⟨host, port⟩ := append_cons_inj (c := ':') (colon_free m) (colon_free n) chars
  exact ⟨String.toList_inj.mp host, toString_int_inj (String.toList_inj.mp port)⟩
end SkyAccel.Net
