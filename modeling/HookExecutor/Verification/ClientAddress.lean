import HookExecutor.Forwarding
import HookExecutor.Lib.Spelling
import HookExecutor.Verification.HeaderText

/-!
# The client's address

Each trusted proxy appends the address it saw to the forwarding list, so what
stands to the left of the rightmost token that is not a proxy's is hearsay. The
code reads the first line of the list only, and passes over tokens that name no
address before it looks for the rightmost one.
-/

namespace HookExecutor

open Text

/-! ### The characters of an address -/

def isAddressChar (c : Char) : Bool := (hexValue c).isSome || c == '.' || c == ':'

/-- Whatever is read is taken off the front, and consists of such characters. -/
def TakesAddressChars {α : Type} (read : List Char → Option (α × List Char)) : Prop :=
  ∀ cs value rest, read cs = some (value, rest) →
    ∃ used, cs = used ++ rest ∧ ∀ c ∈ used, isAddressChar c = true

namespace IpAddr

theorem takesAddressChars_readNumber {value : Char → Option Nat} {radix maxDigits bound : Nat}
    {allowZeroPrefix : Bool} (hvalue : ∀ c, (value c).isSome = true → (hexValue c).isSome = true) :
    TakesAddressChars (readNumber value radix maxDigits bound allowZeroPrefix) := by
  intro cs n rest h
  have hdrop : rest = cs.drop (cs.takeWhile fun c => (value c).isSome).length := by
    rw [readNumber] at h
    obtain ⟨-, h⟩ := Option.ite_none_left_eq_some.mp h
    obtain ⟨-, h⟩ := Option.ite_none_left_eq_some.mp h
    obtain ⟨-, h⟩ := Option.ite_none_right_eq_some.mp h
    exact (Prod.mk.inj (Option.some.inj h)).2.symm
  refine ⟨cs.takeWhile fun c => (value c).isSome, ?_, ?_⟩
  · rw [hdrop]
    exact (List.prefix_iff_eq_append.mp (List.takeWhile_prefix _)).symm
  · intro c hc
    have hdigit := hvalue c (List.all_eq_true.mp List.all_takeWhile c hc)
    simp [isAddressChar, hdigit]

theorem takesAddressChars_readSeparator {α : Type} {sep : Char} {index : Nat}
    {inner : List Char → Option (α × List Char)} (hsep : isAddressChar sep = true)
    (h : TakesAddressChars inner) : TakesAddressChars (readSeparator sep index inner) := by
  intro cs value rest hread
  rw [readSeparator] at hread
  split at hread
  · exact h cs value rest hread
  · obtain ⟨hhead, hread⟩ := Option.ite_none_right_eq_some.mp hread
    obtain ⟨tail, rfl⟩ := List.head?_eq_some_iff.mp hhead
    obtain ⟨used, hused, hchars⟩ := h tail value rest hread
    refine ⟨sep :: used, by rw [hused, List.cons_append], ?_⟩
    intro c hc
    obtain rfl | hc := List.mem_cons.mp hc
    · exact hsep
    · exact hchars c hc

theorem takesAddressChars_readOctet : TakesAddressChars readOctet := by
  apply takesAddressChars_readNumber
  intro c hc
  simp only [decimalValue] at hc
  split at hc
  · rename_i hdigit
    simp [hexValue, hdigit]
  · cases hc

theorem takesAddressChars_readGroup : TakesAddressChars readGroup :=
  takesAddressChars_readNumber fun _ hc => hc

theorem takesAddressChars_append {cs middle rest used used' : List Char}
    (hfirst : cs = used ++ middle) (hsecond : middle = used' ++ rest)
    (h : ∀ c ∈ used, isAddressChar c = true) (h' : ∀ c ∈ used', isAddressChar c = true) :
    ∃ all, cs = all ++ rest ∧ ∀ c ∈ all, isAddressChar c = true := by
  refine ⟨used ++ used', by rw [hfirst, hsecond, List.append_assoc], ?_⟩
  intro c hc
  obtain hc | hc := List.mem_append.mp hc
  · exact h c hc
  · exact h' c hc

theorem takesAddressChars_readOctets (left index : Nat) :
    TakesAddressChars (readOctets left index) := by
  induction left generalizing index with
  | zero =>
    intro cs value rest h
    obtain ⟨-, rfl⟩ := Prod.mk.inj (Option.some.inj h)
    exact ⟨[], rfl, fun c hc => absurd hc List.not_mem_nil⟩
  | succ left ih =>
    intro cs value rest h
    simp only [readOctets, Option.bind_eq_some_iff, Option.map_eq_some_iff] at h
    obtain ⟨first, hfirst, others, hothers, h⟩ := h
    obtain ⟨-, rfl⟩ := Prod.mk.inj h
    obtain ⟨used, hused, hchars⟩ :=
      takesAddressChars_readSeparator (by decide) takesAddressChars_readOctet cs _ _ hfirst
    obtain ⟨used', hused', hchars'⟩ := ih (index + 1) first.2 others.1 others.2 hothers
    exact takesAddressChars_append hused hused' hchars hchars'

theorem takesAddressChars_readIpv4 : TakesAddressChars readIpv4 := by
  intro cs value rest h
  obtain ⟨octets, hoctets, h⟩ := Option.map_eq_some_iff.mp h
  obtain ⟨-, rfl⟩ := Prod.mk.inj h
  exact takesAddressChars_readOctets 4 0 cs octets.1 octets.2 hoctets

theorem takesAddressChars_readGroups (left index : Nat) (cs : List Char) :
    ∃ used, cs = used ++ (readGroups left index cs).2 ∧ ∀ c ∈ used, isAddressChar c = true := by
  induction left generalizing index cs with
  | zero => exact ⟨[], rfl, fun c hc => absurd hc List.not_mem_nil⟩
  | succ left ih =>
    rw [readGroups]
    dsimp only
    split
    · rename_i bits rest hembedded
      obtain ⟨-, hembedded⟩ := Option.ite_none_right_eq_some.mp hembedded
      exact takesAddressChars_readSeparator (by decide) takesAddressChars_readIpv4 cs bits rest
        hembedded
    · split
      · rename_i group rest hgroup
        obtain ⟨used, hused, hchars⟩ :=
          takesAddressChars_readSeparator (by decide) takesAddressChars_readGroup cs _ _ hgroup
        obtain ⟨used', hused', hchars'⟩ := ih (index + 1) rest
        exact takesAddressChars_append hused hused' hchars hchars'
      · exact ⟨[], rfl, fun c hc => absurd hc List.not_mem_nil⟩

theorem takesAddressChars_readIpv6 : TakesAddressChars readIpv6 := by
  intro cs value rest h
  obtain ⟨used, hused, hchars⟩ := takesAddressChars_readGroups 8 0 cs
  simp only [readIpv6] at h
  split at h
  · obtain ⟨-, rfl⟩ := Prod.mk.inj (Option.some.inj h)
    exact ⟨used, hused, hchars⟩
  · obtain ⟨-, h⟩ := Option.ite_none_left_eq_some.mp h
    obtain ⟨hcolons, h⟩ := Option.ite_none_right_eq_some.mp h
    obtain ⟨-, rfl⟩ := Prod.mk.inj (Option.some.inj h)
    generalize readGroups 8 0 cs = head at *
    obtain ⟨used', hused', hchars'⟩ :=
      takesAddressChars_readGroups (7 - head.1.1.length) 0 (head.2.drop 2)
    have hsplit : head.2 = ([':', ':'] ++ used') ++
        (readGroups (7 - head.1.1.length) 0 (head.2.drop 2)).2 := by
      rw [List.append_assoc, ← hused', ← hcolons, List.take_append_drop]
    refine takesAddressChars_append hused hsplit hchars ?_
    intro c hc
    obtain hc | hc := List.mem_append.mp hc
    · simp only [List.mem_cons, List.not_mem_nil, or_false, or_self] at hc
      rw [hc]
      decide
    · exact hchars' c hc

/-- A text that is an address has only such characters. -/
theorem isAddressChar_of_parse {s : String} {ip : IpAddr} (h : parse s = some ip) :
    ∀ c ∈ s.toList, isAddressChar c = true := by
  have hwhole : ∀ {α : Type} {read : List Char → Option (α × List Char)} {value : α}
      {rest : List Char}, TakesAddressChars read → read s.toList = some (value, rest) →
      rest.isEmpty = true → ∀ c ∈ s.toList, isAddressChar c = true := by
    intro α read value rest htakes hread hrest
    obtain ⟨used, hused, hchars⟩ := htakes _ _ _ hread
    rw [List.isEmpty_iff.mp hrest, List.append_nil] at hused
    rwa [hused]
  rw [parse] at h
  split at h
  · rename_i bits rest hread
    exact hwhole takesAddressChars_readIpv4 hread (Option.ite_none_right_eq_some.mp h).1
  · split at h
    · rename_i bits rest hread
      exact hwhole takesAddressChars_readIpv6 hread (Option.ite_none_right_eq_some.mp h).1
    · cases h

end IpAddr

/-! ### Lists of tokens -/

/-- The tokens of a comma-separated list, blank ones left out. -/
def listTokens (text : String) : List String := ((split ',' text).map trim).filter fun s => s != ""

/-- The address a token names. -/
def tokenAddress (token : String) : Option IpAddr := (IpAddr.parse token).map normalizeIp

def isProxy (trusted : List IpNetwork) (token : String) : Bool :=
  (tokenAddress token).any fun ip => isTrusted ip trusted

theorem listTokens_append (first second : String) :
    listTokens (first ++ "," ++ second) = listTokens first ++ listTokens second := by
  have hchars : (first ++ "," ++ second).toList = first.toList ++ ',' :: second.toList := by
    simp [String.toList_append]
  simp only [listTokens, split, hchars, splitChars_append_sep, List.map_append, List.filter_append]

theorem listTokens_intercalate (texts : List String) :
    listTokens (",".intercalate texts) = texts.flatMap listTokens := by
  induction texts with
  | nil => decide
  | cons text texts ih =>
    cases texts with
    | nil => simp
    | cons next texts =>
      rw [String.intercalate_cons_cons, listTokens_append, ih]
      rfl

/-- A token that is the only one of its text. -/
structure IsToken (token : String) : Prop where
  ne : token ≠ ""
  comma : ',' ∉ token.toList
  trimmed : trim token = token

theorem IsToken.listTokens {token : String} (h : IsToken token) : listTokens token = [token] := by
  rw [HookExecutor.listTokens, split, splitChars_of_notMem h.comma]
  simp [h.trimmed, h.ne]

theorem listTokens_intercalate_tokens {tokens : List String} (h : ∀ token ∈ tokens, IsToken token) :
    listTokens (",".intercalate tokens) = tokens := by
  rw [listTokens_intercalate]
  induction tokens with
  | nil => rfl
  | cons token tokens ih =>
    rw [List.flatMap_cons, (h token List.mem_cons_self).listTokens,
      ih fun t ht => h t (List.mem_cons_of_mem _ ht)]
    rfl

theorem isToken_of_mem_listTokens {text token : String} (h : token ∈ listTokens text) :
    IsToken token ∧ ∀ c ∈ token.toList, c ∈ text.toList := by
  obtain ⟨hmem, hne⟩ := List.mem_filter.mp h
  obtain ⟨piece, hpiece, rfl⟩ := List.mem_map.mp hmem
  obtain ⟨cs, hcs, rfl⟩ := List.mem_map.mp hpiece
  have hchars : (trim (String.ofList cs)).toList = trimChars cs := by
    rw [trim, String.toList_ofList, String.toList_ofList]
  have hkept : ∀ c ∈ trimChars cs, c ∈ cs := by
    intro c hc
    obtain ⟨before, after, heq, -, -⟩ := exists_trimChars cs
    rw [heq]
    exact List.mem_append_left _ (List.mem_append_right _ hc)
  refine ⟨⟨by simpa using hne, ?_, ?_⟩, ?_⟩
  · rw [hchars]
    exact fun hc => notMem_of_mem_splitChars hcs (hkept _ hc)
  · rw [trim, hchars, trimChars_trimChars, ← hchars, String.ofList_toList]
  · intro c hc
    rw [hchars] at hc
    exact mem_of_mem_splitChars hcs (hkept c hc)

/-- What the code takes from a list: the rightmost address that is no proxy's. -/
def listClient (trusted : List IpNetwork) (tokens : List String) : Option IpAddr :=
  (tokens.filterMap tokenAddress).reverse.find? fun ip => !isTrusted ip trusted

theorem forwardedClient_eq (text : String) (trusted : List IpNetwork) :
    forwardedClient text trusted = listClient trusted (listTokens text) := by
  rw [forwardedClient, List.map_filterMap]
  rfl

section Client

variable {trusted : List IpNetwork}

theorem listClient_append (left right : List String) :
    listClient trusted (left ++ right) =
      (listClient trusted right).or (listClient trusted left) := by
  simp only [listClient, List.filterMap_append, List.reverse_append, List.find?_append]

theorem listClient_eq_some {tokens : List String} {ip : IpAddr}
    (h : listClient trusted tokens = some ip) :
    isTrusted ip trusted = false ∧ ∃ token ∈ tokens, tokenAddress token = some ip := by
  have hmem := List.mem_of_find?_eq_some h
  have hip := List.find?_some h
  exact ⟨by simpa using hip, List.mem_filterMap.mp (List.mem_reverse.mp hmem)⟩

theorem listClient_proxies {tokens : List String}
    (h : ∀ token ∈ tokens, isProxy trusted token = true) : listClient trusted tokens = none := by
  rw [Option.eq_none_iff_forall_ne_some]
  intro ip hip
  obtain ⟨huntrusted, token, htoken, haddress⟩ := listClient_eq_some hip
  have hproxy := h token htoken
  rw [isProxy, haddress, Option.any_some, huntrusted] at hproxy
  cases hproxy

theorem listClient_address {text : String} {ip : IpAddr} (haddress : tokenAddress text = some ip)
    (huntrusted : isTrusted ip trusted = false) : listClient trusted [text] = some ip := by
  simp [listClient, haddress, huntrusted]

/-- Behind the proxies' tokens, a token that names an address is the client's;
one that names none is passed over. -/
theorem listClient_claim {left right : List String} {token : String}
    (hclaim : isProxy trusted token = false) (hright : ∀ t ∈ right, isProxy trusted t = true) :
    listClient trusted (left ++ token :: right) =
      (tokenAddress token).or (listClient trusted left) := by
  have hone : listClient trusted [token] = tokenAddress token := by
    cases haddress : tokenAddress token with
    | none => simp [listClient, haddress]
    | some ip =>
      have huntrusted : isTrusted ip trusted = false := by
        simpa [isProxy, haddress] using hclaim
      exact listClient_address haddress huntrusted
  rw [← List.singleton_append, listClient_append, listClient_append, listClient_proxies hright,
    hone, Option.none_or]

end Client

/-! ### The header -/

/-- The lines of the forwarding list, in order. -/
def forwardedLines (headers : HeaderMap) : List Bytes :=
  (headers.entries.filter fun entry => entry.1 == "x-forwarded-for").map (·.2)

/-- The tokens of its lines, joined into one list. -/
def forwardedTokens (headers : HeaderMap) : List String :=
  listTokens (",".intercalate ((forwardedLines headers).map rawText))

/-- What the other headers are. -/
def otherHeaders (headers : HeaderMap) : List (String × Bytes) :=
  headers.entries.filter fun entry => entry.1 != "x-forwarded-for"

/-- The address the headers lead to if the list names none. -/
def fallbackAddress (peer : IpAddr) (headers : HeaderMap) : IpAddr :=
  (realIp headers).getD (normalizeIp peer)

theorem getStr_forwarded (headers : HeaderMap) :
    headers.getStr "X-Forwarded-For" = (forwardedLines headers).head?.bind HeaderMap.toStr := by
  have hname : asciiLower "X-Forwarded-For" = "x-forwarded-for" := by decide
  rw [HeaderMap.getStr, HeaderMap.get, hname, forwardedLines, List.head?_map, List.head?_filter]

theorem fallbackAddress_congr {headers headers' : HeaderMap}
    (h : otherHeaders headers' = otherHeaders headers) (peer : IpAddr) :
    fallbackAddress peer headers' = fallbackAddress peer headers := by
  have hname : asciiLower "X-Real-IP" = "x-real-ip" := by decide
  have hfind : ∀ map : HeaderMap, map.getStr "X-Real-IP" =
      (((otherHeaders map).find? fun entry => entry.1 == "x-real-ip").map (·.2)).bind
        HeaderMap.toStr := by
    intro map
    rw [HeaderMap.getStr, HeaderMap.get, hname, otherHeaders, List.find?_filter]
    congr 3
    funext entry
    by_cases hreal : entry.1 = "x-real-ip"
    · simp [hreal]
    · simp [hreal]
  rw [fallbackAddress, fallbackAddress, realIp, realIp, hfind, hfind, h]

theorem resolveClientIp_eq {peer : IpAddr} {trusted : List IpNetwork}
    (htrusted : isTrusted (normalizeIp peer) trusted = true) (headers : HeaderMap) :
    resolveClientIp peer headers trusted =
      (((forwardedLines headers).head?.bind HeaderMap.toStr).bind fun text =>
        listClient trusted (listTokens text)).getD (fallbackAddress peer headers) := by
  have hclient : (fun forwarded => forwardedClient forwarded trusted) = fun text =>
      listClient trusted (listTokens text) := funext fun text => forwardedClient_eq text trusted
  simp only [resolveClientIp, htrusted, getStr_forwarded, hclient, Bool.not_true,
    Bool.false_eq_true, if_false, fallbackAddress]
  cases ((forwardedLines headers).head?.bind HeaderMap.toStr).bind fun text =>
      listClient trusted (listTokens text) with
  | some client => rfl
  | none =>
    cases realIp headers with
    | some ip => rfl
    | none => rfl

/-! ### The property and when it holds -/

/-- A token of a list that is no proxy's address, with only proxies' addresses
to its right. -/
structure RightmostClaim (trusted : List IpNetwork) (tokens left : List String) (token : String)
    (right : List String) : Prop where
  tokens_eq : tokens = left ++ token :: right
  claim : isProxy trusted token = false
  proxies : ∀ t ∈ right, isProxy trusted t = true

/-- An untrusted peer is the client. Behind a trusted one, the rightmost claim
settles the address, whatever stands to its left in other headers that are
considered, and is the address if it names one. -/
def AddressKept (considered : HeaderMap → Prop) (peer : IpAddr) (headers : HeaderMap)
    (trusted : List IpNetwork) : Prop :=
  (isTrusted (normalizeIp peer) trusted = false →
    resolveClientIp peer headers trusted = normalizeIp peer) ∧
  (isTrusted (normalizeIp peer) trusted = true → ∀ left token right,
    RightmostClaim trusted (forwardedTokens headers) left token right →
      (∀ headers' left', considered headers' → otherHeaders headers' = otherHeaders headers →
        forwardedTokens headers' = left' ++ token :: right →
          resolveClientIp peer headers' trusted = resolveClientIp peer headers trusted) ∧
      ∀ ip, tokenAddress token = some ip → resolveClientIp peer headers trusted = ip)

/-- Header sets whose forwarding list is one line that reads as text. -/
def OneReadableLine (headers : HeaderMap) : Prop :=
  ∃ line text, forwardedLines headers = [line] ∧ HeaderMap.toStr line = some text

def NamesOnlyProxies (headers : HeaderMap) (trusted : List IpNetwork) : Prop :=
  ∀ token ∈ forwardedTokens headers, isProxy trusted token = true

def ClaimNamesAddress (headers : HeaderMap) (trusted : List IpNetwork) : Prop :=
  ∃ left token right, RightmostClaim trusted (forwardedTokens headers) left token right ∧
    (tokenAddress token).isSome = true

/-- Whatever address a client can write is a trusted proxy's, or the one the
code falls back to anyway. -/
def NothingElseToName (peer : IpAddr) (headers : HeaderMap) (trusted : List IpNetwork) : Prop :=
  ∀ text ip, tokenAddress text = some ip →
    isTrusted ip trusted = true ∨ ip = fallbackAddress peer headers

theorem RightmostClaim.unique {trusted : List IpNetwork}
    {tokens left left' right right' : List String} {token token' : String}
    (h : RightmostClaim trusted tokens left token right)
    (h' : RightmostClaim trusted tokens left' token' right') : token = token' ∧ right = right' := by
  have hends : ∀ {left : List String} {token : String} {right : List String},
      RightmostClaim trusted tokens left token right →
        tokens.reverse.dropWhile (isProxy trusted) = token :: left.reverse ∧
          tokens.reverse.takeWhile (isProxy trusted) = right.reverse := by
    intro left token right h
    have hright : ∀ t ∈ right.reverse, isProxy trusted t = true :=
      fun t ht => h.proxies t (List.mem_reverse.mp ht)
    have hreverse : tokens.reverse = right.reverse ++ token :: left.reverse := by
      rw [h.tokens_eq]
      simp
    rw [hreverse, List.dropWhile_append_of_pos hright, List.takeWhile_append_of_pos hright,
      List.dropWhile_cons_of_neg (by simp [h.claim]),
      List.takeWhile_cons_of_neg (by simp [h.claim])]
    exact ⟨rfl, List.append_nil _⟩
  obtain ⟨hdrop, htake⟩ := hends h
  obtain ⟨hdrop', htake'⟩ := hends h'
  exact ⟨(List.cons.inj (hdrop.symm.trans hdrop')).1,
    List.reverse_inj.mp (htake.symm.trans htake')⟩

theorem exists_rightmostClaim {trusted : List IpNetwork} {tokens : List String}
    (h : ¬∀ token ∈ tokens, isProxy trusted token = true) :
    ∃ left token right, RightmostClaim trusted tokens left token right := by
  induction tokens with
  | nil => exact absurd (fun token htoken => absurd htoken List.not_mem_nil) h
  | cons first tokens ih =>
    by_cases hrest : ∀ token ∈ tokens, isProxy trusted token = true
    · refine ⟨[], first, tokens, rfl, ?_, hrest⟩
      rw [Bool.eq_false_iff]
      intro hfirst
      apply h
      intro token htoken
      obtain rfl | htoken := List.mem_cons.mp htoken
      · exact hfirst
      · exact hrest token htoken
    · obtain ⟨left, token, right, hclaim⟩ := ih hrest
      exact ⟨first :: left, token, right, by rw [hclaim.tokens_eq]; rfl, hclaim.claim,
        hclaim.proxies⟩

/-! ### Headers a client can send -/

theorem isAddressChar_plain {c : Char} (h : isAddressChar c = true) :
    isVisible c = true ∧ isWhitespace c = false ∧ c ≠ ',' := by
  have hall : ∀ k : Fin 128, isAddressChar (Char.ofNat k) = true →
      isVisible (Char.ofNat k) = true ∧ isWhitespace (Char.ofNat k) = false ∧
        Char.ofNat k ≠ ',' := by decide
  have hlow : c.toNat < 128 := by
    simp only [isAddressChar, Bool.or_eq_true, beq_iff_eq] at h
    obtain (hhex | rfl) | rfl := h
    · obtain ⟨n, hn⟩ := Option.isSome_iff_exists.mp hhex
      exact toNat_lt_of_hexValue hn
    · decide
    · decide
  have hc := hall ⟨c.toNat, hlow⟩
  rw [show Char.ofNat (⟨c.toNat, hlow⟩ : Fin 128) = c from Char.ofNat_toNat c] at hc
  exact hc h

/-- An address is a token, and can be sent in a header. -/
theorem isToken_of_tokenAddress {text : String} {ip : IpAddr} (h : tokenAddress text = some ip) :
    IsToken text ∧ ∀ c ∈ text.toList, isVisible c = true := by
  obtain ⟨address, hparse, -⟩ := Option.map_eq_some_iff.mp h
  have hchars := IpAddr.isAddressChar_of_parse hparse
  refine ⟨⟨?_, ?_, ?_⟩, fun c hc => (isAddressChar_plain (hchars c hc)).1⟩
  · rintro rfl
    cases hparse
  · exact fun hc => (isAddressChar_plain (hchars _ hc)).2.2 rfl
  · apply String.toList_inj.mp
    rw [trim, String.toList_ofList]
    apply trimChars_of_ends
    · exact fun c hc => (isAddressChar_plain (hchars c (List.mem_of_head? hc))).2.1
    · exact fun c hc => (isAddressChar_plain (hchars c (List.mem_of_getLast? hc))).2.1

/-- The headers with one more line in front of the forwarding list. -/
def withFirstLine (text : String) (headers : HeaderMap) : HeaderMap :=
  ⟨("x-forwarded-for", asBytes text) :: headers.entries⟩

/-- The headers with one line for a forwarding list. -/
def withOnlyLine (text : String) (headers : HeaderMap) : HeaderMap :=
  ⟨("x-forwarded-for", asBytes text) :: otherHeaders headers⟩

section Lines

variable {text : String} {peer : IpAddr} {headers : HeaderMap} {trusted : List IpNetwork}

theorem rawText_asBytes (h : ∀ c ∈ text.toList, isVisible c = true) :
    rawText (asBytes text) = text :=
  (toStr_eq_some_iff.mp (toStr_asBytes h)).2

theorem forwardedTokens_withFirstLine (h : ∀ c ∈ text.toList, isVisible c = true) :
    forwardedTokens (withFirstLine text headers) = listTokens text ++ forwardedTokens headers := by
  have hlines : forwardedLines (withFirstLine text headers) =
      asBytes text :: forwardedLines headers := by
    simp [forwardedLines, withFirstLine]
  simp only [forwardedTokens, hlines, listTokens_intercalate, List.map_cons, List.flatMap_cons,
    rawText_asBytes h]

theorem otherHeaders_withFirstLine :
    otherHeaders (withFirstLine text headers) = otherHeaders headers := by
  simp [otherHeaders, withFirstLine]

theorem forwardedLines_withOnlyLine :
    forwardedLines (withOnlyLine text headers) = [asBytes text] := by
  have hothers : (otherHeaders headers).filter (fun entry => entry.1 == "x-forwarded-for") =
      [] := by
    rw [otherHeaders, List.filter_filter]
    simp
  simp [forwardedLines, withOnlyLine, hothers]

theorem forwardedTokens_withOnlyLine (h : ∀ c ∈ text.toList, isVisible c = true) :
    forwardedTokens (withOnlyLine text headers) = listTokens text := by
  simp [forwardedTokens, forwardedLines_withOnlyLine, rawText_asBytes h]

theorem otherHeaders_withOnlyLine :
    otherHeaders (withOnlyLine text headers) = otherHeaders headers := by
  simp [otherHeaders, withOnlyLine, List.filter_filter]

theorem resolveClientIp_of_head (htrusted : isTrusted (normalizeIp peer) trusted = true)
    {headers' : HeaderMap} (hhead : (forwardedLines headers').head? = some (asBytes text))
    (h : ∀ c ∈ text.toList, isVisible c = true)
    (hothers : otherHeaders headers' = otherHeaders headers) :
    resolveClientIp peer headers' trusted =
      (listClient trusted (listTokens text)).getD (fallbackAddress peer headers) := by
  rw [resolveClientIp_eq htrusted, hhead, Option.bind_some, toStr_asBytes h, Option.bind_some,
    fallbackAddress_congr hothers]

end Lines

/-! ### When the address is kept -/

section Kept

variable {considered : HeaderMap → Prop} {peer : IpAddr} {headers : HeaderMap}
  {trusted : List IpNetwork}

theorem addressKept_of_untrusted (h : isTrusted (normalizeIp peer) trusted = false) :
    AddressKept considered peer headers trusted := by
  refine ⟨fun _ => ?_, fun htrusted => ?_⟩
  · simp [resolveClientIp, h]
  · rw [h] at htrusted
    cases htrusted

theorem addressKept_of_namesOnlyProxies (htrusted : isTrusted (normalizeIp peer) trusted = true)
    (h : NamesOnlyProxies headers trusted) : AddressKept considered peer headers trusted := by
  refine ⟨fun huntrusted => ?_, fun _ left token right hclaim => ?_⟩
  · rw [htrusted] at huntrusted
    cases huntrusted
  · have hproxy := h token (by rw [hclaim.tokens_eq]; simp)
    rw [hclaim.claim] at hproxy
    cases hproxy

/-- If there is no other address to name, every header set leads to the one the
code falls back to. -/
theorem resolveClientIp_of_nothingElse (htrusted : isTrusted (normalizeIp peer) trusted = true)
    (h : NothingElseToName peer headers trusted) {headers' : HeaderMap}
    (hothers : otherHeaders headers' = otherHeaders headers) :
    resolveClientIp peer headers' trusted = fallbackAddress peer headers := by
  rw [resolveClientIp_eq htrusted, fallbackAddress_congr hothers]
  cases hclient : ((forwardedLines headers').head?.bind HeaderMap.toStr).bind fun text =>
      listClient trusted (listTokens text) with
  | none => rfl
  | some ip =>
    obtain ⟨text, -, hlist⟩ := Option.bind_eq_some_iff.mp hclient
    obtain ⟨huntrusted, token, -, haddress⟩ := listClient_eq_some hlist
    obtain hip | hip := h token ip haddress
    · rw [huntrusted] at hip
      cases hip
    · exact hip

theorem addressKept_of_nothingElse (htrusted : isTrusted (normalizeIp peer) trusted = true)
    (h : NothingElseToName peer headers trusted) :
    AddressKept considered peer headers trusted := by
  refine ⟨fun huntrusted => ?_, fun _ left token right hclaim => ⟨?_, ?_⟩⟩
  · rw [htrusted] at huntrusted
    cases huntrusted
  · intro headers' left' _ hothers _
    rw [resolveClientIp_of_nothingElse htrusted h hothers,
      resolveClientIp_of_nothingElse htrusted h rfl]
  · intro ip haddress
    rw [resolveClientIp_of_nothingElse htrusted h rfl]
    obtain hip | hip := h token ip haddress
    · have hproxy := hclaim.claim
      rw [isProxy, haddress, Option.any_some, hip] at hproxy
      cases hproxy
    · exact hip.symm

theorem resolveClientIp_of_claim (htrusted : isTrusted (normalizeIp peer) trusted = true)
    (hline : OneReadableLine headers) {left right : List String} {token : String} {ip : IpAddr}
    (hclaim : RightmostClaim trusted (forwardedTokens headers) left token right)
    (haddress : tokenAddress token = some ip) : resolveClientIp peer headers trusted = ip := by
  obtain ⟨line, text, hlines, htext⟩ := hline
  have htokens : forwardedTokens headers = listTokens text := by
    simp [forwardedTokens, hlines, (toStr_eq_some_iff.mp htext).2]
  rw [resolveClientIp_eq htrusted, hlines, List.head?_cons, Option.bind_some, htext,
    Option.bind_some, ← htokens, hclaim.tokens_eq, listClient_claim hclaim.claim hclaim.proxies,
    haddress]
  rfl

/-- In one readable line, a claim that names an address settles it. -/
theorem addressKept_of_claim (htrusted : isTrusted (normalizeIp peer) trusted = true)
    (hline : OneReadableLine headers) (h : ClaimNamesAddress headers trusted) :
    AddressKept OneReadableLine peer headers trusted := by
  obtain ⟨left₀, token₀, right₀, hclaim₀, hsome⟩ := h
  obtain ⟨ip₀, haddress₀⟩ := Option.isSome_iff_exists.mp hsome
  refine ⟨fun huntrusted => ?_, fun _ left token right hclaim => ?_⟩
  · rw [htrusted] at huntrusted
    cases huntrusted
  · obtain ⟨rfl, rfl⟩ := hclaim.unique hclaim₀
    have hhere := resolveClientIp_of_claim htrusted hline hclaim haddress₀
    constructor
    · intro headers' left' hline' _ htokens
      have hclaim' : RightmostClaim trusted (forwardedTokens headers') left' token right :=
        ⟨htokens, hclaim.claim, hclaim.proxies⟩
      rw [resolveClientIp_of_claim htrusted hline' hclaim' haddress₀, hhere]
    · intro ip haddress
      rw [hhere]
      exact Option.some.inj (haddress₀.symm.trans haddress)

/-- A line in front of the list is all the code reads, so a client that sends
one chooses between no address and any address. -/
theorem nothingElse_of_addressKept (htrusted : isTrusted (normalizeIp peer) trusted = true)
    (hnames : ¬NamesOnlyProxies headers trusted)
    (h : AddressKept (fun _ => True) peer headers trusted) :
    NothingElseToName peer headers trusted := by
  intro text ip haddress
  obtain ⟨left, token, right, hclaim⟩ := exists_rightmostClaim hnames
  obtain ⟨htoken, hvisible⟩ := isToken_of_tokenAddress haddress
  have hkept : ∀ text : String, (∀ c ∈ text.toList, isVisible c = true) →
      (listClient trusted (listTokens text)).getD (fallbackAddress peer headers) =
        resolveClientIp peer headers trusted := by
    intro text hvisible
    rw [← resolveClientIp_of_head htrusted rfl hvisible otherHeaders_withFirstLine]
    refine ((h.2 htrusted left token right hclaim).1 (withFirstLine text headers)
      (listTokens text ++ left) trivial otherHeaders_withFirstLine ?_)
    rw [forwardedTokens_withFirstLine hvisible, hclaim.tokens_eq, List.append_assoc]
  cases hproxy : isTrusted ip trusted with
  | true => exact .inl rfl
  | false =>
    have hnamed := hkept text hvisible
    have hempty := hkept "" (by simp)
    rw [htoken.listTokens, listClient_address haddress hproxy] at hnamed
    exact .inr (hnamed.trans hempty.symm)

theorem isVisible_intercalate {tokens : List String}
    (h : ∀ token ∈ tokens, ∀ c ∈ token.toList, isVisible c = true) :
    ∀ c ∈ (",".intercalate tokens).toList, isVisible c = true := by
  induction tokens with
  | nil => simp
  | cons token tokens ih =>
    have hrest := ih fun t ht => h t (List.mem_cons_of_mem _ ht)
    cases tokens with
    | nil => simpa using h token List.mem_cons_self
    | cons next tokens =>
      intro c hc
      rw [String.intercalate_cons_cons, String.toList_append, String.toList_append,
        List.mem_append, List.mem_append] at hc
      obtain (hc | hc) | hc := hc
      · exact h token List.mem_cons_self c hc
      · obtain rfl : c = ',' := by simpa using hc
        decide
      · exact hrest c hc

/-- Nor does a single line settle it if the claim names none: the next address
to its left is taken for the client's. -/
theorem nothingElse_of_addressKept_line (htrusted : isTrusted (normalizeIp peer) trusted = true)
    (hline : OneReadableLine headers) (hnames : ¬NamesOnlyProxies headers trusted)
    (hclaims : ¬ClaimNamesAddress headers trusted)
    (h : AddressKept OneReadableLine peer headers trusted) :
    NothingElseToName peer headers trusted := by
  intro text ip haddress
  obtain ⟨left, token, right, hclaim⟩ := exists_rightmostClaim hnames
  obtain ⟨htoken, hvisible⟩ := isToken_of_tokenAddress haddress
  have hnone : tokenAddress token = none := by
    rw [Option.eq_none_iff_forall_ne_some]
    intro other hother
    exact hclaims ⟨left, token, right, hclaim, by rw [hother]; rfl⟩
  have hplain : ∀ t ∈ token :: right, IsToken t ∧ ∀ c ∈ t.toList, isVisible c = true := by
    obtain ⟨line, whole, hlines, hwhole⟩ := hline
    have htokens : forwardedTokens headers = listTokens whole := by
      simp [forwardedTokens, hlines, (toStr_eq_some_iff.mp hwhole).2]
    intro t ht
    have hmem : t ∈ listTokens whole := by
      rw [← htokens, hclaim.tokens_eq]
      exact List.mem_append_right _ ht
    obtain ⟨hplain, hchars⟩ := isToken_of_mem_listTokens hmem
    exact ⟨hplain, fun c hc => isVisible_of_mem_toStr hwhole (hchars c hc)⟩
  have hkept : ∀ left', (∀ t ∈ left', IsToken t ∧ ∀ c ∈ t.toList, isVisible c = true) →
      (listClient trusted (left' ++ token :: right)).getD (fallbackAddress peer headers) =
        resolveClientIp peer headers trusted := by
    intro left' hleft
    have hall : ∀ t ∈ left' ++ token :: right, IsToken t ∧ ∀ c ∈ t.toList, isVisible c = true := by
      intro t ht
      obtain ht | ht := List.mem_append.mp ht
      · exact hleft t ht
      · exact hplain t ht
    have hchars := isVisible_intercalate fun t ht => (hall t ht).2
    have hlist := listTokens_intercalate_tokens fun t ht => (hall t ht).1
    rw [← hlist, ← resolveClientIp_of_head htrusted
      (by rw [forwardedLines_withOnlyLine]; rfl) hchars otherHeaders_withOnlyLine]
    refine (h.2 htrusted left token right hclaim).1 (withOnlyLine _ headers) left'
      ⟨_, _, forwardedLines_withOnlyLine, toStr_asBytes hchars⟩ otherHeaders_withOnlyLine ?_
    rw [forwardedTokens_withOnlyLine hchars, hlist]
  cases hproxy : isTrusted ip trusted with
  | true => exact .inl rfl
  | false =>
    have hnamed := hkept [text] (by simpa using ⟨htoken, hvisible⟩)
    have hempty := hkept [] (by simp)
    rw [listClient_claim hclaim.claim hclaim.proxies, hnone, Option.none_or] at hnamed hempty
    rw [listClient_address haddress hproxy] at hnamed
    exact .inr (hnamed.trans hempty.symm)

/-- The address is kept exactly if no header decides it, or there is no other to
claim: only the first line is read. Where a single line is all that proxies
pass on, a claim that names an address is kept as well. -/
theorem client_address_kept_iff (peer : IpAddr) (headers : HeaderMap) (trusted : List IpNetwork) :
    (AddressKept (fun _ => True) peer headers trusted ↔
      isTrusted (normalizeIp peer) trusted = false ∨ NamesOnlyProxies headers trusted ∨
        NothingElseToName peer headers trusted) ∧
    (OneReadableLine headers →
      (AddressKept OneReadableLine peer headers trusted ↔
        isTrusted (normalizeIp peer) trusted = false ∨ NamesOnlyProxies headers trusted ∨
          ClaimNamesAddress headers trusted ∨ NothingElseToName peer headers trusted)) := by
  cases htrusted : isTrusted (normalizeIp peer) trusted with
  | false =>
    exact ⟨⟨fun _ => .inl rfl, fun _ => addressKept_of_untrusted htrusted⟩,
      fun _ => ⟨fun _ => .inl rfl, fun _ => addressKept_of_untrusted htrusted⟩⟩
  | true =>
    refine ⟨⟨fun h => ?_, fun h => ?_⟩, fun hline => ⟨fun h => ?_, fun h => ?_⟩⟩
    · by_cases hnames : NamesOnlyProxies headers trusted
      · exact .inr (.inl hnames)
      · exact .inr (.inr (nothingElse_of_addressKept htrusted hnames h))
    · obtain h | h | h := h
      · cases h
      · exact addressKept_of_namesOnlyProxies htrusted h
      · exact addressKept_of_nothingElse htrusted h
    · by_cases hnames : NamesOnlyProxies headers trusted
      · exact .inr (.inl hnames)
      by_cases hclaims : ClaimNamesAddress headers trusted
      · exact .inr (.inr (.inl hclaims))
      · exact .inr (.inr (.inr (nothingElse_of_addressKept_line htrusted hline hnames hclaims h)))
    · obtain h | h | h | h := h
      · cases h
      · exact addressKept_of_namesOnlyProxies htrusted h
      · exact addressKept_of_claim htrusted hline h
      · exact addressKept_of_nothingElse htrusted h

/-- Behind the proxy 10.0.0.9, `6.6.6.6, unknown` leads to 6.6.6.6, and
`unknown` to the proxy. -/
theorem unread_claim_lets_hearsay_in :
    ¬AddressKept (fun _ => True) (.v4 0x0A000009#32)
      (withOnlyLine "6.6.6.6, unknown" ⟨[]⟩) [hostRoute (.v4 0x0A000009#32)] := by
  intro h
  have hclaim : RightmostClaim [hostRoute (.v4 0x0A000009#32)]
      (forwardedTokens (withOnlyLine "6.6.6.6, unknown" ⟨[]⟩)) ["6.6.6.6"] "unknown" [] :=
    ⟨by decide, by decide, fun t ht => absurd ht List.not_mem_nil⟩
  have hsame := (h.2 (by decide) _ _ _ hclaim).1 (withOnlyLine "unknown" ⟨[]⟩) [] trivial
    (by decide) (by decide)
  revert hsame
  decide

end Kept

end HookExecutor
