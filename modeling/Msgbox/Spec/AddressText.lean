import Msgbox.Address
import Msgbox.Lib.Decimal
import Mathlib.Data.List.TakeWhile

/-!
# The texts of addresses

What a text denotes is said without the parser: a scheme, a dotted quad or `*`, and a decimal port.
`parse_address_str` accepts all of these, and what `strtol` reads besides.

## Key results

- `Denotes`: the addresses and their texts
- `address_grammar`: a text is parsed as it should exactly if it is not one of those that only
  `strtol` allows
- `address_round_trip`: what `address_as_str` prints is parsed as the address
-/

namespace Msgbox

open Decimal

/-! ## The grammar -/

/-- The text before the ip. -/
def scheme : Protocol → CString
  | .tcp => ['t', 'c', 'p', ':', '/', '/']
  | .udp => ['u', 'd', 'p', ':', '/', '/']
  | .other => []

/-- A dotted quad. -/
def quad (a b c d : Nat) : CString :=
  Nat.toDigits 10 a ++ '.' :: (Nat.toDigits 10 b ++ '.' :: (Nat.toDigits 10 c ++
    '.' :: Nat.toDigits 10 d))

/-- The ip in network byte order. -/
def quadIp (a b c d : Nat) : UInt32 := UInt32.ofNat (a + b * 256 + c * 65536 + d * 16777216)

/-- The texts that stand for an ip. -/
inductive HostText : CString → UInt32 → Prop
  | any : HostText ['*'] 0
  | quad {a b c d : Nat} (ha : a < 256) (hb : b < 256) (hc : c < 256) (hd : d < 256) :
      HostText (quad a b c d) (quadIp a b c d)

/-- The text of an address with the given port string. -/
def IsText (str : CString) (p : Protocol) (ip : UInt32) (port : CString) : Prop :=
  p ≠ .other ∧ ∃ host, HostText host ip ∧ str = scheme p ++ (host ++ ':' :: port)

/-- The text denotes the address. -/
def Denotes (str : CString) (a : Address) : Prop :=
  ∃ port, IsText str a.protocolType a.ip port ∧ IsNumeral port ∧ value port = a.port.toNat

/-- A port string that `strtol` reads although it is no number from 0 to 65535: with white space or
    a sign before the digits, or too large. -/
def LaxPort (port : CString) : Prop :=
  ∃ space sign digits, port = space ++ (sign ++ digits) ∧ (∀ ch ∈ space, isSpace ch = true) ∧
    (sign = [] ∨ sign = ['+'] ∨ sign = ['-']) ∧ IsNumeral digits ∧
      (space ≠ [] ∨ sign ≠ [] ∨ 65535 < value digits)

/-! ## Dotted quads -/

/-- A text has at least one part. -/
private theorem splitAt_ne_nil (sep : Char) (str : CString) : splitAt sep str ≠ [] := by
  cases str with
  | nil => simp [splitAt]
  | cons ch rest =>
    rw [splitAt]
    split
    · simp
    · split <;> simp

/-- A part without the separator is split off as a whole. -/
private theorem splitAt_append {sep : Char} {part : CString} (h : sep ∉ part) (rest : CString) :
    splitAt sep (part ++ sep :: rest) = part :: splitAt sep rest := by
  induction part with
  | nil =>
    rw [List.nil_append, splitAt]
    split
    · rename_i hnil
      exact absurd hnil (splitAt_ne_nil sep rest)
    · rename_i heq
      rw [if_pos rfl, heq]
  | cons ch part ih =>
    rw [List.mem_cons, not_or] at h
    rw [List.cons_append, splitAt, ih h.2]
    exact if_neg (Ne.symm h.1)

/-- Without a separator the text is its only part. -/
private theorem splitAt_of_not_mem {sep : Char} {part : CString} (h : sep ∉ part) :
    splitAt sep part = [part] := by
  induction part with
  | nil => rfl
  | cons ch part ih =>
    rw [List.mem_cons, not_or] at h
    rw [splitAt, ih h.2]
    exact if_neg (Ne.symm h.1)

/-- The first part, and the rest. -/
private theorem splitAt_cons {sep : Char} {str part : CString} {parts : List CString}
    (h : splitAt sep str = part :: parts) :
    (parts = [] ∧ str = part) ∨ ∃ rest, str = part ++ sep :: rest ∧ splitAt sep rest = parts := by
  induction str generalizing part parts with
  | nil =>
    obtain ⟨rfl, rfl⟩ := List.cons.inj h
    exact .inl ⟨rfl, rfl⟩
  | cons ch str ih =>
    rw [splitAt] at h
    split at h
    · rename_i hnil
      exact absurd hnil (splitAt_ne_nil sep str)
    · rename_i first others heq
      split at h
      · rename_i hch
        obtain ⟨rfl, rfl⟩ := List.cons.inj h
        exact .inr ⟨str, by rw [hch]; rfl, heq⟩
      · obtain ⟨rfl, rfl⟩ := List.cons.inj h
        rcases ih heq with ⟨hnil, rfl⟩ | ⟨rest, rfl, hrest⟩
        · exact .inl ⟨hnil, rfl⟩
        · exact .inr ⟨rest, rfl, hrest⟩

/-- The octets are written without leading zeros. -/
private theorem parseOctet_iff {digits : CString} {n : Nat} :
    parseOctet digits = some n ↔ n < 256 ∧ digits = Nat.toDigits 10 n := by
  unfold parseOctet
  rw [foldl_eq_value]
  constructor
  · intro h
    split at h
    · exact absurd h.symm (Option.some_ne_none n)
    · rename_i hlen
      split at h
      · exact absurd h.symm (Option.some_ne_none n)
      · rename_i hdigits
        split at h
        · exact absurd h.symm (Option.some_ne_none n)
        · rename_i hzero
          dsimp only at h
          split at h
          · rename_i hle
            obtain rfl := Option.some.inj h
            have hnumeral : IsNumeral digits := by
              refine ⟨?_, by simpa using hdigits⟩
              rintro rfl
              exact hlen (.inl rfl)
            -- Without a leading zero a numeral is the one its value is written as.
            refine ⟨by omega, (toDigits_value hnumeral ?_).symm⟩
            by_cases hone : digits.length = 1
            · exact .inl hone
            · exact .inr fun hhead => hzero ⟨by omega, hhead⟩
          · exact absurd h.symm (Option.some_ne_none n)
  · rintro ⟨hlt, rfl⟩
    have hpos := Nat.length_toDigits_pos (b := 10) (n := n)
    -- Below 256 there are at most three digits.
    have hlen := (Nat.length_toDigits_le_iff (n := n) (k := 3) (b := 10) (by decide)
      (by decide)).mpr
      (by omega)
    have hnumeral := isNumeral_toDigits n
    rw [if_neg (by omega), if_neg (by simpa using hnumeral.2), if_neg]
    · dsimp only
      rw [value_toDigits, if_pos (by omega)]
    · rintro ⟨hmany, hhead⟩
      rcases Nat.eq_zero_or_pos n with rfl | hn
      · simp at hmany
      · exact head_toDigits hn hhead

/-- A decimal numeral has no character but digits. -/
private theorem not_mem_toDigits {ch : Char} (h : ch.isDigit = false) (n : Nat) :
    ch ∉ Nat.toDigits 10 n := by
  intro hmem
  have hdigit := (isNumeral_toDigits n).2 ch hmem
  exact Bool.noConfusion (h.symm.trans hdigit)

/-- The dots of a dotted quad are its only ones. -/
private theorem splitAt_quad (a b c d : Nat) :
    splitAt '.' (quad a b c d) =
      [Nat.toDigits 10 a, Nat.toDigits 10 b, Nat.toDigits 10 c, Nat.toDigits 10 d] := by
  have hdot : ∀ n, '.' ∉ Nat.toDigits 10 n := not_mem_toDigits rfl
  rw [quad, splitAt_append (hdot a), splitAt_append (hdot b), splitAt_append (hdot c),
    splitAt_of_not_mem (hdot d)]

/-- `inet_pton` reads the numbers of a dotted quad. -/
private theorem inetPton_quad {a b c d : Nat} (ha : a < 256) (hb : b < 256) (hc : c < 256)
    (hd : d < 256) :
    inetPton (quad a b c d) = some (quadIp a b c d) := by
  unfold inetPton
  rw [splitAt_quad]
  simp only [List.map_cons, List.map_nil, parseOctet_iff.mpr ⟨ha, rfl⟩,
    parseOctet_iff.mpr ⟨hb, rfl⟩, parseOctet_iff.mpr ⟨hc, rfl⟩, parseOctet_iff.mpr ⟨hd, rfl⟩]
  rfl

/-- `inet_pton` accepts exactly the dotted quads. -/
private theorem inetPton_iff {str : CString} {ip : UInt32} :
    inetPton str = some ip ↔ ∃ a b c d, a < 256 ∧ b < 256 ∧ c < 256 ∧ d < 256 ∧
      str = quad a b c d ∧ ip = quadIp a b c d := by
  constructor
  · intro h
    unfold inetPton at h
    split at h
    · rename_i a b c d hparts
      obtain rfl := Option.some.inj h
      -- Four parts, each of which is an octet.
      obtain ⟨w, ws, hw, ha, hws⟩ := List.map_eq_cons_iff.mp hparts
      obtain ⟨x, xs, rfl, hb, hxs⟩ := List.map_eq_cons_iff.mp hws
      obtain ⟨y, ys, rfl, hc, hys⟩ := List.map_eq_cons_iff.mp hxs
      obtain ⟨z, zs, rfl, hd, hzs⟩ := List.map_eq_cons_iff.mp hys
      rw [List.map_eq_nil_iff] at hzs
      subst hzs
      obtain ⟨hlta, rfl⟩ := parseOctet_iff.mp ha
      obtain ⟨hltb, rfl⟩ := parseOctet_iff.mp hb
      obtain ⟨hltc, rfl⟩ := parseOctet_iff.mp hc
      obtain ⟨hltd, rfl⟩ := parseOctet_iff.mp hd
      obtain ⟨rest₁, rfl, h₁⟩ := (splitAt_cons hw).resolve_left fun hnil =>
        absurd hnil.1 (List.cons_ne_nil _ _)
      obtain ⟨rest₂, rfl, h₂⟩ := (splitAt_cons h₁).resolve_left fun hnil =>
        absurd hnil.1 (List.cons_ne_nil _ _)
      obtain ⟨rest₃, rfl, h₃⟩ := (splitAt_cons h₂).resolve_left fun hnil =>
        absurd hnil.1 (List.cons_ne_nil _ _)
      rcases splitAt_cons h₃ with ⟨-, rfl⟩ | ⟨rest₄, -, h₄⟩
      · exact ⟨a, b, c, d, hlta, hltb, hltc, hltd, rfl, rfl⟩
      · exact absurd h₄ (splitAt_ne_nil '.' rest₄)
    · exact absurd h.symm (Option.some_ne_none ip)
  · rintro ⟨a, b, c, d, ha, hb, hc, hd, rfl, rfl⟩
    exact inetPton_quad ha hb hc hd

/-! ## Hosts -/

/-- A byte has at most three digits. -/
private theorem length_toDigits_octet {n : Nat} (h : n < 256) : (Nat.toDigits 10 n).length ≤ 3 :=
  (Nat.length_toDigits_le_iff (by decide) (by decide)).mpr (by omega)

/-- A dotted quad fits the window of 15 characters, and has no colon. -/
private theorem quad_window {a b c d : Nat} (ha : a < 256) (hb : b < 256) (hc : c < 256)
    (hd : d < 256) :
    1 ≤ (quad a b c d).length ∧ (quad a b c d).length ≤ 15 ∧ ':' ∉ quad a b c d := by
  have hla := length_toDigits_octet ha
  have hlb := length_toDigits_octet hb
  have hlc := length_toDigits_octet hc
  have hld := length_toDigits_octet hd
  refine ⟨?_, ?_, ?_⟩
  · simp only [quad, List.length_append, List.length_cons]
    omega
  · simp only [quad, List.length_append, List.length_cons]
    omega
  · have hcolon : ∀ n, ':' ∉ Nat.toDigits 10 n := not_mem_toDigits rfl
    simp [quad, hcolon]

/-- What `parse_address_str` makes of the text of an ip. -/
def parseHost (host : CString) : Option UInt32 := if host = ['*'] then some 0 else inetPton host

/-- The host texts are the parts of 1 to 15 characters without a colon that `parse_address_str`
    reads an ip from. -/
private theorem hostText_iff {host : CString} {ip : UInt32} :
    HostText host ip ↔ 1 ≤ host.length ∧ host.length ≤ 15 ∧ ':' ∉ host ∧
      parseHost host = some ip := by
  constructor
  · intro h
    cases h with
    | any => exact ⟨by decide, by decide, by decide, rfl⟩
    | @quad a b c d ha hb hc hd =>
      obtain ⟨hpos, hle, hcolon⟩ := quad_window ha hb hc hd
      refine ⟨hpos, hle, hcolon, ?_⟩
      have hstar : quad a b c d ≠ ['*'] := by
        intro heq
        have hmem : '.' ∈ quad a b c d := by simp [quad]
        rw [heq] at hmem
        exact absurd hmem (by decide)
      rw [parseHost, if_neg hstar]
      exact inetPton_quad ha hb hc hd
  · rintro ⟨-, -, -, hparse⟩
    unfold parseHost at hparse
    split at hparse
    · rename_i hstar
      obtain rfl := Option.some.inj hparse
      exact hstar ▸ .any
    · obtain ⟨a, b, c, d, ha, hb, hc, hd, rfl, rfl⟩ := inetPton_iff.mp hparse
      exact .quad ha hb hc hd

/-! ## Ports -/

/-- A character that may stand before the digits is none. -/
private theorem isDigit_of_isSpace {ch : Char} (h : isSpace ch = true) : ch.isDigit = false := by
  rw [Bool.eq_false_iff]
  intro hdigit
  obtain ⟨hlow, hhigh⟩ := Char.isDigit_iff_toNat.mp hdigit
  have hzero : '0'.toNat = 48 := rfl
  simp only [isSpace, Bool.or_eq_true, Bool.and_eq_true, decide_eq_true_eq] at h
  rcases h with rfl | ⟨-, hle⟩
  · exact absurd hlow (by decide)
  · omega

/-- No digit is white space. -/
private theorem isSpace_of_isDigit {ch : Char} (h : ch.isDigit = true) : isSpace ch = false := by
  rw [Bool.eq_false_iff]
  intro hspace
  rw [isDigit_of_isSpace hspace] at h
  exact Bool.noConfusion h

/-- A whole port string that `strtol` reads. -/
structure PortText (port space sign digits : CString) : Prop where
  text : port = space ++ (sign ++ digits)
  space : ∀ ch ∈ space, isSpace ch = true
  sign : sign = [] ∨ sign = ['+'] ∨ sign = ['-']
  digits : IsNumeral digits

/-- The value that `strtol` returns for it. -/
def longValue (sign digits : CString) : Int :=
  max longMin (min longMax (if sign = ['-'] then -(value digits : Int) else value digits))

/-- Dropping skips a front that holds the predicate throughout. -/
private theorem dropWhile_append_of_all {p : Char → Bool} {front rest : CString}
    (h : ∀ ch ∈ front, p ch = true) : (front ++ rest).dropWhile p = rest.dropWhile p := by
  induction front with
  | nil => rfl
  | cons ch front ih =>
    rw [List.cons_append, List.dropWhile_cons_of_pos (h ch List.mem_cons_self)]
    exact ih fun c hc => h c (List.mem_cons_of_mem _ hc)

/-- Of a text of digits, all is taken and nothing left. -/
private theorem takeWhile_digits {digits : CString} (h : ∀ ch ∈ digits, ch.isDigit = true) :
    digits.takeWhile Char.isDigit = digits ∧ digits.dropWhile Char.isDigit = [] :=
  ⟨List.takeWhile_eq_self_iff.mpr (by simpa using h),
    List.dropWhile_eq_nil_iff.mpr (by simpa using h)⟩

/-- `strtol` reads all of such a string. -/
private theorem strtol_portText {port space sign digits : CString}
    (h : PortText port space sign digits) :
    strtol port = (longValue sign digits, []) := by
  obtain ⟨rfl, hspace, hsign, hne, hdigits⟩ := h
  obtain ⟨htake, hdrop⟩ := takeWhile_digits hdigits
  have hempty : digits.isEmpty = false := List.isEmpty_eq_false_iff.mpr hne
  unfold strtol
  rw [dropWhile_append_of_all hspace]
  rcases hsign with rfl | rfl | rfl
  · -- The first digit is no sign, and no white space.
    have hhead : ∀ ch : Char, ch.isDigit = false → digits.head? ≠ some ch := by
      intro ch hch hhead
      rw [hdigits ch (List.mem_of_mem_head? hhead)] at hch
      exact Bool.noConfusion hch
    have hkeep : digits.dropWhile isSpace = digits := by
      obtain ⟨first, rest, rfl⟩ := List.exists_cons_of_ne_nil hne
      exact List.dropWhile_cons_of_neg
        (by simp [isSpace_of_isDigit (hdigits first List.mem_cons_self)])
    rw [List.nil_append, hkeep]
    simp only [hhead '-' rfl, hhead '+' rfl, decide_false, Bool.false_eq_true, or_self, if_false,
      htake, hdrop, hempty, foldl_eq_value, longValue]
    rfl
  · have hkeep : (['+'] ++ digits).dropWhile isSpace = '+' :: digits := rfl
    rw [hkeep]
    simp only [List.head?_cons, List.tail_cons, Option.some.injEq, Char.reduceEq, decide_false,
      Bool.false_eq_true, or_true, if_true, if_false, htake, hdrop, hempty, foldl_eq_value,
      longValue, List.cons.injEq, and_true]
  · have hkeep : (['-'] ++ digits).dropWhile isSpace = '-' :: digits := rfl
    rw [hkeep]
    simp only [List.head?_cons, List.tail_cons, decide_true, true_or, if_true, Bool.false_eq_true,
      if_false, htake, hdrop, hempty, foldl_eq_value, longValue]

/-- A string that `strtol` reads to its end, and that is not empty, is of this form. -/
private theorem portText_of_strtol {port : CString} (hne : port ≠ []) (h : (strtol port).2 = []) :
    ∃ space sign digits, PortText port space sign digits := by
  unfold strtol at h
  dsimp only at h
  have hsplit := List.takeWhile_append_dropWhile (p := isSpace) (l := port)
  have hspace : ∀ ch ∈ port.takeWhile isSpace, isSpace ch = true := fun ch hch =>
    List.mem_takeWhile_imp hch
  generalize port.takeWhile isSpace = space at hsplit hspace
  generalize port.dropWhile isSpace = body at h hsplit
  -- The digits are all that follows the sign.
  have hrest : ∀ rest : CString,
      (if (rest.takeWhile Char.isDigit).isEmpty = true then port
        else rest.dropWhile Char.isDigit) = [] → IsNumeral rest := by
    intro rest hrest
    split at hrest
    · exact absurd hrest hne
    · rename_i hsome
      have hall := List.dropWhile_eq_nil_iff.mp hrest
      refine ⟨?_, hall⟩
      rintro rfl
      exact hsome rfl
  rw [apply_ite Prod.snd] at h
  dsimp only at h
  split at h
  · rename_i hsign
    have hdigits := hrest body.tail h
    cases body with
    | nil => exact absurd rfl hdigits.1
    | cons first rest =>
      refine ⟨space, [first], rest, hsplit.symm, hspace, ?_, hdigits⟩
      simp only [List.head?_cons, Option.some.injEq, decide_eq_true_eq] at hsign
      rcases hsign with rfl | rfl
      · exact .inr (.inr rfl)
      · exact .inr (.inl rfl)
  · exact ⟨space, [], body, hsplit.symm, hspace, .inl rfl, hrest body h⟩

/-! ## Parsing -/

/-- A host text has no colon. -/
private theorem mem_host {host : CString} {ip : UInt32} (h : HostText host ip) : ':' ∉ host :=
  (hostText_iff.mp h).2.2.1

/-- The first colon ends the ip. -/
private theorem split_colon {host : CString} (h : ':' ∉ host) (port : CString) :
    (host ++ ':' :: port).takeWhile (· != ':') = host ∧
      (host ++ ':' :: port).dropWhile (· != ':') = ':' :: port := by
  have hall : ∀ ch ∈ host, (ch != ':') = true := by
    intro ch hch
    rw [bne_iff_ne]
    rintro rfl
    exact h hch
  constructor
  · rw [List.takeWhile_append_of_pos hall, List.takeWhile_cons_of_neg (by decide), List.append_nil]
  · rw [List.dropWhile_append_of_pos hall, List.dropWhile_cons_of_neg (by decide)]

/-- Both schemes, `tcp://` and `udp://`, have six characters. -/
private theorem length_scheme {p : Protocol} (h : p ≠ .other) : (scheme p).length = 6 := by
  cases p with
  | tcp => rfl
  | udp => rfl
  | other => exact absurd rfl h

/-- A text has one protocol, one ip and one port string. -/
theorem IsText.unique {str : CString} {p p' : Protocol} {ip ip' : UInt32} {port port' : CString}
    (h : IsText str p ip port) (h' : IsText str p' ip' port') :
    p = p' ∧ ip = ip' ∧ port = port' := by
  obtain ⟨hp, host, hhost, rfl⟩ := h
  obtain ⟨hp', host', hhost', heq⟩ := h'
  obtain ⟨hscheme, hrest⟩ := List.append_inj heq (by rw [length_scheme hp, length_scheme hp'])
  obtain ⟨htake, hdrop⟩ := split_colon (mem_host hhost) port
  obtain ⟨htake', hdrop'⟩ := split_colon (mem_host hhost') port'
  rw [hrest] at htake hdrop
  have hhosts : host = host' := htake.symm.trans htake'
  have hports := hdrop.symm.trans hdrop'
  have hips := (hostText_iff.mp hhost).2.2.2.symm.trans (hhosts ▸ (hostText_iff.mp hhost').2.2.2)
  refine ⟨?_, Option.some.inj hips, (List.cons.inj hports).2⟩
  -- The schemes differ where the protocols do.
  cases p <;> cases p' <;> first | rfl | exact absurd rfl hp | exact absurd rfl hp' |
    exact absurd hscheme (by decide)

/-- What is parsed from a text with a port string. -/
private theorem parse_text {str : CString} {p : Protocol} {ip : UInt32} {port : CString}
    (h : IsText str p ip port) (hport : port ≠ []) (conn : Address) :
    ((parseAddressStr str conn).2 = none ↔ (strtol port).2 = []) ∧
      (parseAddressStr str conn).1 = ⟨ip, UInt16.ofNat ((strtol port).1 % 65536).toNat, p⟩ := by
  obtain ⟨hp, host, hhost, rfl⟩ := h
  obtain ⟨hpos, hlen, hcolon, hparse⟩ := hostText_iff.mp hhost
  obtain ⟨htake, hdrop⟩ := split_colon hcolon port
  -- The six letters of the scheme are split off first.
  have hfront : (scheme p ++ (host ++ ':' :: port)).take 6 = scheme p := by
    rw [← length_scheme hp, List.take_left]
  have hback : (scheme p ++ (host ++ ':' :: port)).drop 6 = host ++ ':' :: port := by
    rw [← length_scheme hp, List.drop_left]
  have hcontains : (host ++ ':' :: port).contains ':' = true := by simp
  have hempty : port.isEmpty = false := List.isEmpty_eq_false_iff.mpr hport
  have hwindow : ¬ (15 < host.length ∨ host.length < 1) := by omega
  have hprotocol : (if scheme p = ['t', 'c', 'p', ':', '/', '/'] then some Protocol.tcp
      else if scheme p = ['u', 'd', 'p', ':', '/', '/'] then some .udp else none) = some p := by
    cases p with
    | tcp => rfl
    | udp => rfl
    | other => exact absurd rfl hp
  unfold parseHost at hparse
  unfold parseAddressStr
  dsimp only
  rw [hfront, hback, hprotocol]
  dsimp only
  rw [htake, hdrop, List.tail_cons, if_neg (not_not.mpr hcontains), if_neg hwindow, hparse]
  dsimp only
  rw [hempty, if_neg Bool.false_ne_true]
  -- Whatever `strtol` makes of the port is taken; text left over is the error.
  by_cases hrest : (strtol port).2 = []
  · rw [if_neg (by simp [hrest])]
    exact ⟨iff_of_true rfl hrest, rfl⟩
  · rw [if_pos (by simp [hrest])]
    exact ⟨iff_of_false (Option.some_ne_none _) hrest, rfl⟩

/-- Only texts with a port string are accepted. -/
private theorem isText_of_parse {str : CString} {conn : Address}
    (h : (parseAddressStr str conn).2 = none) :
    ∃ p ip port, IsText str p ip port ∧ port ≠ [] := by
  unfold parseAddressStr at h
  dsimp only at h
  split at h
  · exact absurd h (Option.some_ne_none _)
  · rename_i p hprotocol
    split at h
    · exact absurd h (Option.some_ne_none _)
    · rename_i hcontains
      split at h
      · exact absurd h (Option.some_ne_none _)
      · rename_i hwindow
        split at h
        · exact absurd h (Option.some_ne_none _)
        · rename_i ip hhost
          split at h
          · exact absurd h (Option.some_ne_none _)
          · rename_i hempty
            have hfront : p ≠ .other ∧ str.take 6 = scheme p := by
              split at hprotocol
              · rename_i htcp
                obtain rfl := Option.some.inj hprotocol
                exact ⟨by decide, htcp⟩
              · split at hprotocol
                · rename_i hudp
                  obtain rfl := Option.some.inj hprotocol
                  exact ⟨by decide, hudp⟩
                · exact absurd hprotocol.symm (Option.some_ne_none p)
            rw [not_not, List.contains_iff_mem] at hcontains
            generalize hstart : str.drop 6 = start at *
            have hsplit := List.takeWhile_append_dropWhile (p := (· != ':')) (l := start)
            have hcolon : ':' ∉ start.takeWhile (· != ':') := by
              intro hmem
              have hne := List.mem_takeWhile_imp hmem
              exact absurd hne (by decide)
            -- A colon ends the ip, as there is one.
            obtain ⟨port, hport⟩ : ∃ port, start.dropWhile (· != ':') = ':' :: port := by
              cases hdrop : start.dropWhile (· != ':') with
              | nil =>
                rw [hdrop, List.append_nil] at hsplit
                exact absurd (hsplit.symm ▸ hcontains) hcolon
              | cons first rest =>
                have hfirst := List.head_dropWhile_not (· != ':') (by rw [hdrop]; simp)
                simp only [hdrop, List.head_cons, bne_eq_false_iff_eq] at hfirst
                exact ⟨rest, by rw [hfirst]⟩
            rw [hport] at hsplit hempty
            refine ⟨p, ip, port, ⟨hfront.1, start.takeWhile (· != ':'), ?_, ?_⟩, ?_⟩
            · exact hostText_iff.mpr ⟨by omega, by omega, hcolon, hhost⟩
            · rw [hsplit, ← hfront.2, ← hstart, List.take_append_drop]
            · simpa using hempty

/-- A port in range is read as it is. -/
private theorem longValue_of_le {digits : CString} (h : value digits ≤ 65535) :
    longValue [] digits = value digits := by
  have hsign : ([] : CString) ≠ ['-'] := (List.cons_ne_nil _ _).symm
  unfold longValue longMin longMax
  rw [if_neg hsign]
  omega

/-- The number of a port is kept when it is narrowed to 16 bits. -/
private theorem narrow_port {digits : CString} {port : UInt16} (h : value digits = port.toNat) :
    UInt16.ofNat ((value digits : Int) % 65536).toNat = port := by
  have hlt := port.toNat_lt
  rw [h, show ((port.toNat : Int) % 65536).toNat = port.toNat by omega, UInt16.ofNat_toNat]

/-- A text that denotes an address is parsed as that address. -/
private theorem parse_of_denotes {str : CString} {a : Address} (h : Denotes str a)
    (conn : Address) :
    parseAddressStr str conn = (a, none) := by
  obtain ⟨port, htext, hnumeral, hvalue⟩ := h
  have hlt := a.port.toNat_lt
  have hform : PortText port [] [] port := ⟨rfl, by simp, .inl rfl, hnumeral⟩
  have hread := strtol_portText hform
  obtain ⟨haccepted, haddress⟩ := parse_text htext hnumeral.1 conn
  rw [hread, longValue_of_le (by omega), narrow_port hvalue] at haddress
  exact Prod.ext haddress (haccepted.mpr (by rw [hread]))

/-- The strings of digits up to 65535 are not among those that only `strtol` allows. -/
private theorem not_laxPort {port : CString} (hnumeral : IsNumeral port)
    (hle : value port ≤ 65535) :
    ¬ LaxPort port := by
  rintro ⟨space, sign, digits, rfl, hspace, hsign, -, hlax⟩
  -- White space and signs are no digits.
  have hnone : space = [] := by
    refine List.eq_nil_iff_forall_not_mem.mpr fun ch hch => ?_
    have hdigit := hnumeral.2 ch (List.mem_append_left _ hch)
    rw [isDigit_of_isSpace (hspace ch hch)] at hdigit
    exact Bool.noConfusion hdigit
  subst hnone
  rcases hsign with rfl | rfl | rfl
  · rcases hlax with hlax | hlax | hlax
    · exact hlax rfl
    · exact hlax rfl
    · exact absurd hlax (Nat.not_lt.mpr hle)
  · exact absurd (hnumeral.2 '+' (by simp)) (by decide)
  · exact absurd (hnumeral.2 '-' (by simp)) (by decide)

/-- The accepted texts: those that denote an address, and those with a port string that only
    `strtol` allows. -/
private theorem parse_accepts_iff {str : CString} {conn : Address} :
    (parseAddressStr str conn).2 = none ↔
      (∃ a, Denotes str a) ∨ ∃ p ip port, IsText str p ip port ∧ LaxPort port := by
  constructor
  · intro h
    obtain ⟨p, ip, port, htext, hport⟩ := isText_of_parse h
    have hread := ((parse_text htext hport conn).1).mp h
    obtain ⟨space, sign, digits, hform⟩ := portText_of_strtol hport hread
    by_cases hlax : space ≠ [] ∨ sign ≠ [] ∨ 65535 < value digits
    · exact .inr ⟨p, ip, port, htext, space, sign, digits, hform.text, hform.space, hform.sign,
        hform.digits, hlax⟩
    · simp only [not_or, not_not, Nat.not_lt] at hlax
      obtain ⟨rfl, rfl, hle⟩ := hlax
      obtain rfl : port = digits := hform.text
      refine .inl ⟨⟨ip, UInt16.ofNat (value port), p⟩, port, htext, hform.digits, ?_⟩
      exact (UInt16.toNat_ofNat_of_lt' (Nat.lt_of_le_of_lt hle (by decide))).symm
  · rintro (⟨a, ha⟩ | ⟨p, ip, port, htext, space, sign, digits, hport, hspace, hsign, hdigits, -⟩)
    · rw [parse_of_denotes ha conn]
    · have hform : PortText port space sign digits := ⟨hport, hspace, hsign, hdigits⟩
      have hne : port ≠ [] := by
        rw [hport]
        simp [hdigits.1]
      exact (parse_text htext hne conn).1.mpr (by rw [strtol_portText hform])

/-- What only `strtol` allows denotes no address. -/
private theorem not_denotes_of_lax {str : CString} {p : Protocol} {ip : UInt32} {port : CString}
    (htext : IsText str p ip port) (hlax : LaxPort port) (a : Address) : ¬ Denotes str a := by
  rintro ⟨port', htext', hnumeral, hvalue⟩
  obtain ⟨-, -, rfl⟩ := htext.unique htext'
  have hlt := a.port.toNat_lt
  exact not_laxPort hnumeral (by omega) hlax

/-- A text is accepted exactly if it denotes an address, and then parsed as that address, unless
    its port string is one of those that only `strtol` allows. -/
theorem address_grammar (str : CString) (conn : Address) :
    (((parseAddressStr str conn).2 = none ↔ ∃ a, Denotes str a) ∧
      ∀ a, Denotes str a → (parseAddressStr str conn).1 = a) ↔
    ¬ ∃ p ip port, IsText str p ip port ∧ LaxPort port := by
  constructor
  · rintro ⟨haccepted, -⟩ ⟨p, ip, port, htext, hlax⟩
    obtain ⟨a, ha⟩ := haccepted.mp (parse_accepts_iff.mpr (.inr ⟨p, ip, port, htext, hlax⟩))
    exact not_denotes_of_lax htext hlax a ha
  · intro hlax
    refine ⟨?_, fun a ha => by rw [parse_of_denotes ha conn]⟩
    rw [parse_accepts_iff]
    exact or_iff_left hlax

/-- A port beyond the range is accepted, and narrowed. -/
theorem port_narrowed :
    ¬ ∀ str conn, ((parseAddressStr str conn).2 = none ↔ ∃ a, Denotes str a) ∧
      ∀ a, Denotes str a → (parseAddressStr str conn).1 = a := by
  intro h
  have htext : IsText "tcp://*:70000".toList .tcp 0 "70000".toList :=
    ⟨by decide, ['*'], .any, rfl⟩
  have hlax : LaxPort "70000".toList :=
    ⟨[], [], "70000".toList, rfl, by simp, .inl rfl, ⟨by decide, by simp⟩, .inr (.inr (by decide))⟩
  have haccepted : (parseAddressStr "tcp://*:70000".toList ⟨0, 0, .other⟩) =
      (⟨0, 4464, .tcp⟩, none) := by decide
  obtain ⟨a, ha⟩ := (h "tcp://*:70000".toList ⟨0, 0, .other⟩).1.mp (by rw [haccepted])
  exact not_denotes_of_lax htext hlax a ha

/-! ## Printing -/

/-- A port has at most five digits. -/
private theorem length_port (port : UInt16) : (Nat.toDigits 10 port.toNat).length ≤ 5 :=
  (Nat.length_toDigits_le_iff (by decide) (by decide)).mpr
    (Nat.lt_trans port.toNat_lt (by decide))

/-- `inet_ntoa` prints the bytes of the ip. -/
private theorem hostText_inetNtoa (ip : UInt32) : HostText (inetNtoa ip) ip := by
  have hlt := ip.toNat_lt
  have hip : quadIp (ip.toNat % 256) (ip.toNat / 256 % 256) (ip.toNat / 65536 % 256)
      (ip.toNat / 16777216) = ip := by
    rw [quadIp, show ip.toNat % 256 + ip.toNat / 256 % 256 * 256 + ip.toNat / 65536 % 256 * 65536 +
      ip.toNat / 16777216 * 16777216 = ip.toNat by omega, UInt32.ofNat_toNat]
  have htext : inetNtoa ip = quad (ip.toNat % 256) (ip.toNat / 256 % 256) (ip.toNat / 65536 % 256)
      (ip.toNat / 16777216) := by
    simp [inetNtoa, quad]
  have hquad := HostText.quad (a := ip.toNat % 256) (b := ip.toNat / 256 % 256)
    (c := ip.toNat / 65536 % 256) (d := ip.toNat / 16777216) (by omega) (by omega) (by omega)
    (by omega)
  rw [hip, ← htext] at hquad
  exact hquad

/-- The whole text of an address. -/
def addressText (a : Address) : CString :=
  scheme a.protocolType ++ (inetNtoa a.ip ++ ':' :: Nat.toDigits 10 a.port.toNat)

/-- The text of an address has at most 27 characters, so that the 32 bytes of `address_as_str`
    hold it. -/
private theorem length_addressText {a : Address} (h : a.protocolType ≠ .other) :
    (addressText a).length ≤ 27 := by
  have hhost := (hostText_iff.mp (hostText_inetNtoa a.ip)).2.1
  have hport := length_port a.port
  simp only [addressText, List.length_append, List.length_cons, length_scheme h]
  omega

/-- The buffer of `address_as_str` is long enough. -/
private theorem addressAsStr_eq {a : Address} (h : a.protocolType ≠ .other) :
    addressAsStr a = addressText a := by
  have hlen := length_addressText h
  have htext : addressAsStr a = (addressText a).take 31 := by
    obtain ⟨ip, port, p⟩ := a
    unfold addressAsStr addressText
    cases p with
    | tcp => simp [scheme]
    | udp => simp [scheme]
    | other => exact absurd rfl h
  rw [htext, List.take_of_length_le (by omega)]

/-- The text that is written for an address denotes it. -/
private theorem denotes_addressText {a : Address} (h : a.protocolType ≠ .other) :
    Denotes (addressText a) a :=
  ⟨Nat.toDigits 10 a.port.toNat, ⟨h, inetNtoa a.ip, hostText_inetNtoa a.ip, rfl⟩,
    isNumeral_toDigits _, value_toDigits _⟩

/-- The text of an address fits the buffer, and is parsed as that address; so it tells addresses
    apart. -/
theorem address_round_trip :
    (∀ a : Address, a.protocolType ≠ .other → addressAsStr a = addressText a ∧
      (addressText a).length < 32 ∧ ∀ conn, parseAddressStr (addressAsStr a) conn = (a, none)) ∧
    ∀ a b : Address, a.protocolType ≠ .other → b.protocolType ≠ .other →
      addressAsStr a = addressAsStr b → a = b := by
  have hparse : ∀ a : Address, a.protocolType ≠ .other → ∀ conn,
      parseAddressStr (addressAsStr a) conn = (a, none) := by
    intro a ha conn
    rw [addressAsStr_eq ha]
    exact parse_of_denotes (denotes_addressText ha) conn
  constructor
  · intro a ha
    have hlen := length_addressText ha
    exact ⟨addressAsStr_eq ha, by omega, hparse a ha⟩
  · intro a b ha hb heq
    have hback := hparse a ha a
    rw [heq, hparse b hb a] at hback
    exact (congrArg Prod.fst hback).symm

theorem address_round_trip_longest :
    parseAddressStr (addressAsStr ⟨0xffffffff, 65535, .tcp⟩) ⟨0, 0, .other⟩ =
      (⟨0xffffffff, 65535, .tcp⟩, none) :=
  (address_round_trip.1 ⟨0xffffffff, 65535, .tcp⟩ (by decide)).2.2 ⟨0, 0, .other⟩

end Msgbox
