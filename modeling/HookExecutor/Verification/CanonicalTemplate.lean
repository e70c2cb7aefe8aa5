import HookExecutor.Crypto
import HookExecutor.Lib.Replace
import HookExecutor.Lib.Utf8

/-!
# What a canonical string says about a request

The bytes joined by line feeds settle the request. The default template, which
spells the same format, is filled in one placeholder after the other: a value
put in early is scanned again for every later placeholder, and the body is
decoded on the way. It yields the same bytes exactly when neither does anything.
-/

namespace HookExecutor

open Text Crypto

/-- What is signed of a request. -/
structure SignedRequest where
  method : String
  target : String
  timestamp : String
  body : Bytes
  deriving DecidableEq

namespace SignedRequest

def payload (r : SignedRequest) : Bytes :=
  canonicalV1Payload r.method r.target r.timestamp r.body

/-- The bytes signed under the default template. -/
def rendered (r : SignedRequest) : Bytes :=
  renderCanonicalTemplate defaultCanonicalTemplate r.method r.target r.timestamp r.body

/-- Every field before the body is one line. -/
structure SingleLine (r : SignedRequest) : Prop where
  method : '\n' ∉ r.method.toList
  target : '\n' ∉ r.target.toList
  timestamp : '\n' ∉ r.timestamp.toList

/-- The canonical string settles the request, whatever its body is. -/
theorem payload_unambiguous {r s : SignedRequest} (hr : r.SingleLine) (hs : s.SingleLine)
    (h : r.payload = s.payload) : r = s := by
  obtain ⟨hmethod, htarget, htimestamp, hbody⟩ := canonicalV1Payload_inj
    (newline_notMem_asBytes hr.method) (newline_notMem_asBytes hs.method)
    (newline_notMem_asBytes hr.target) (newline_notMem_asBytes hs.target)
    (newline_notMem_asBytes hr.timestamp) (newline_notMem_asBytes hs.timestamp) h
  cases r
  cases s
  simp only at hmethod htarget htimestamp hbody
  rw [hmethod, htarget, htimestamp, hbody]

theorem payload_unambiguous_ping :
    (⟨"POST", "/api/hooks/ping/test", "1700000000", [0x0A]⟩ : SignedRequest) =
      ⟨"POST", "/api/hooks/ping/test", "1700000000", [0x0A]⟩ :=
  payload_unambiguous ⟨by decide, by decide, by decide⟩ ⟨by decide, by decide, by decide⟩ rfl

/-! ### Filling the default template -/

/-- A field with the placeholders that are filled in after it, each by the value
it stands for, in the order in which the template is filled. -/
def fill (later : List (String × String)) (field : String) : String :=
  later.foldl (fun text entry => replace text entry.1 entry.2) field

/-- What is still to be filled in once a field stands in the template. -/
def afterTimestamp (r : SignedRequest) : List (String × String) :=
  [(bodyPlaceholder, fromUtf8Lossy r.body)]

def afterTarget (r : SignedRequest) : List (String × String) :=
  (timestampPlaceholder, r.timestamp) :: r.afterTimestamp

def afterMethod (r : SignedRequest) : List (String × String) :=
  (pathPlaceholder, r.target) :: r.afterTarget

def placeholders : List String :=
  [methodPlaceholder, pathPlaceholder, timestampPlaceholder, bodyPlaceholder]

theorem placeholder_line {p : String} (h : p ∈ placeholders) :
    p.toList ≠ [] ∧ '\n' ∉ p.toList := by
  have hall : ∀ p ∈ placeholders, p.toList ≠ [] ∧ '\n' ∉ p.toList := by decide
  exact hall p h

section Replace

variable (pattern : String)

theorem replace_lines (replacement : String) (hne : pattern.toList ≠ [])
    (hline : '\n' ∉ pattern.toList) (a b : String) :
    replace (a ++ "\n" ++ b) pattern replacement =
      replace a pattern replacement ++ "\n" ++ replace b pattern replacement := by
  apply String.toList_inj.mp
  simp only [replace, String.toList_append, String.toList_ofList, List.append_assoc]
  exact replaceChars_append_cons hne hline

variable {pattern}

theorem replace_self (replacement : String) (hne : pattern.toList ≠ []) :
    replace pattern pattern replacement = replacement := by
  unfold replace
  rw [replaceChars_pattern hne, String.ofList_toList]

theorem replace_of_absent (replacement : String) {text : String}
    (h : ¬pattern.toList <:+: text.toList) : replace text pattern replacement = text := by
  unfold replace
  rw [replaceChars_of_absent h, String.ofList_toList]

end Replace

/-- A placeholder stands for itself until its own turn comes. -/
theorem replace_other {p q : String} (hp : p ∈ placeholders) (hq : q ∈ placeholders) (hne : p ≠ q)
    (replacement : String) : replace p q replacement = p := by
  have hall : ∀ p ∈ placeholders, ∀ q ∈ placeholders, p ≠ q → ¬q.toList <:+: p.toList := by
    decide +kernel
  exact replace_of_absent _ (hall p hp q hq hne)

/-- Each line of the template ends up as its field, filled. -/
theorem rendered_eq (r : SignedRequest) :
    r.rendered = asBytes (fill r.afterMethod r.method ++ "\n" ++ (fill r.afterTarget r.target ++
      "\n" ++ (fill r.afterTimestamp r.timestamp ++ "\n" ++ fromUtf8Lossy r.body))) := by
  have htemplate : defaultCanonicalTemplate = methodPlaceholder ++ "\n" ++ (pathPlaceholder ++
      "\n" ++ (timestampPlaceholder ++ "\n" ++ bodyPlaceholder)) := by decide
  have hmethod := replace_lines methodPlaceholder r.method (by decide) (by decide)
  have hpath := replace_lines pathPlaceholder r.target (by decide) (by decide)
  have htimestamp :=
    replace_lines timestampPlaceholder r.timestamp (by decide) (by decide)
  have hbody :=
    replace_lines bodyPlaceholder (fromUtf8Lossy r.body) (by decide) (by decide)
  have hother : ∀ p q, p ∈ placeholders → q ∈ placeholders → p ≠ q →
      ∀ value, replace p q value = p := fun p q hp hq hne value => replace_other hp hq hne value
  unfold rendered renderCanonicalTemplate
  simp only [htemplate, hmethod, hpath, htimestamp, hbody,
    replace_self _ (show methodPlaceholder.toList ≠ [] by decide),
    replace_self _ (show pathPlaceholder.toList ≠ [] by decide),
    replace_self _ (show timestampPlaceholder.toList ≠ [] by decide),
    replace_self _ (show bodyPlaceholder.toList ≠ [] by decide),
    hother pathPlaceholder methodPlaceholder (by decide) (by decide) (by decide),
    hother timestampPlaceholder methodPlaceholder (by decide) (by decide) (by decide),
    hother bodyPlaceholder methodPlaceholder (by decide) (by decide) (by decide),
    hother timestampPlaceholder pathPlaceholder (by decide) (by decide) (by decide),
    hother bodyPlaceholder pathPlaceholder (by decide) (by decide) (by decide),
    hother bodyPlaceholder timestampPlaceholder (by decide) (by decide) (by decide),
    fill, afterMethod, afterTarget, afterTimestamp, List.foldl_cons, List.foldl_nil]

theorem payload_eq (r : SignedRequest) :
    r.payload = asBytes (r.method ++ "\n" ++ (r.target ++ "\n" ++ (r.timestamp ++ "\n"))) ++
      r.body := by
  have hnewline : asBytes "\n" = [0x0A] := by decide
  simp only [payload, canonicalV1Payload, asBytes_append, hnewline, List.append_assoc]

theorem afterTimestamp_mem (r : SignedRequest) :
    ∀ entry ∈ r.afterTimestamp, entry.1 ∈ placeholders := by
  simp [afterTimestamp, placeholders]

theorem afterTarget_mem (r : SignedRequest) :
    ∀ entry ∈ r.afterTarget, entry.1 ∈ placeholders := by
  simp [afterTarget, afterTimestamp, placeholders]

theorem afterMethod_mem (r : SignedRequest) :
    ∀ entry ∈ r.afterMethod, entry.1 ∈ placeholders := by
  simp [afterMethod, afterTarget, afterTimestamp, placeholders]

/-- Filling never loses a line break. -/
theorem count_le_count_fill {later : List (String × String)} (field : String)
    (h : ∀ entry ∈ later, entry.1 ∈ placeholders) :
    field.toList.count '\n' ≤ (fill later field).toList.count '\n' := by
  induction later generalizing field with
  | nil => exact Nat.le_refl _
  | cons entry later ih =>
    obtain ⟨hne, hline⟩ := placeholder_line (h entry List.mem_cons_self)
    refine Nat.le_trans ?_ (ih _ fun e he => h e (List.mem_cons_of_mem _ he))
    change _ ≤ (replace field entry.1 entry.2).toList.count '\n'
    rw [replace, String.toList_ofList]
    exact count_le_count_replaceChars hne hline 0 (by simp)

/-- The values that are filled in late leave every field as it is. -/
def FillsNothing (r : SignedRequest) : Prop :=
  fill r.afterMethod r.method = r.method ∧ fill r.afterTarget r.target = r.target ∧
    fill r.afterTimestamp r.timestamp = r.timestamp

/-- The default template and the default payload are the same bytes exactly for
a body that is valid UTF-8 in a request whose fields are left as they are. -/
theorem rendered_eq_payload_iff (r : SignedRequest) :
    r.rendered = r.payload ↔ (fromUtf8 r.body).isSome = true ∧ r.FillsNothing := by
  rw [← asBytes_fromUtf8Lossy_iff]
  constructor
  · intro h
    -- decoding both sides reads the three lines of the payload and then its body
    have hdecoded := congrArg fromUtf8Lossy h
    rw [rendered_eq, payload_eq, fromUtf8Lossy_asBytes, fromUtf8Lossy_append] at hdecoded
    have hbody : asBytes (fromUtf8Lossy r.body) = r.body := by
      have hbytes := (rendered_eq r).symm.trans h
      rw [hdecoded, payload_eq, asBytes_append] at hbytes
      exact List.append_cancel_left hbytes
    refine ⟨hbody, ?_⟩
    have hm := count_le_count_fill r.method r.afterMethod_mem
    have hp := count_le_count_fill r.target r.afterTarget_mem
    have ht := count_le_count_fill r.timestamp r.afterTimestamp_mem
    have hchars := congrArg String.toList hdecoded
    simp only [String.toList_append, List.append_assoc] at hchars
    have hnewline : "\n".toList = ['\n'] := rfl
    rw [hnewline] at hchars
    simp only [List.singleton_append] at hchars
    have hcount := congrArg (List.count '\n') hchars
    simp only [List.count_append, List.count_cons_self] at hcount
    obtain ⟨hmethod, hchars⟩ := append_cons_inj_of_count_eq (by omega) hchars
    obtain ⟨htarget, hchars⟩ := append_cons_inj_of_count_eq (by omega) hchars
    obtain ⟨htimestamp, -⟩ := append_cons_inj_of_count_eq (by omega) hchars
    exact ⟨String.toList_inj.mp hmethod, String.toList_inj.mp htarget,
      String.toList_inj.mp htimestamp⟩
  · rintro ⟨hbody, hmethod, htarget, htimestamp⟩
    rw [rendered_eq, hmethod, htarget, htimestamp, payload_eq]
    conv_rhs => rw [← hbody]
    rw [← asBytes_append]
    simp only [String.append_assoc]

/-- The template yields other bytes than the payload where a target mentions a
placeholder. -/
theorem rendered_ne_payload : ¬∀ r : SignedRequest, r.rendered = r.payload := by
  intro h
  have hmentions := h ⟨"POST", "/api/hooks/ping/execute?note=\x7bbody\x7d", "1700000000", []⟩
  revert hmentions
  decide

theorem fill_of_absent {later : List (String × String)} {field : String}
    (h : ∀ entry ∈ later, ¬entry.1.toList <:+: field.toList) : fill later field = field := by
  induction later with
  | nil => rfl
  | cons entry later ih =>
    change fill later (replace field entry.1 entry.2) = field
    rw [replace_of_absent _ (h entry List.mem_cons_self)]
    exact ih fun e he => h e (List.mem_cons_of_mem _ he)

/-- Fields that mention no placeholder are left as they are. -/
theorem fillsNothing_of_absent {r : SignedRequest}
    (h : ∀ field ∈ [r.method, r.target, r.timestamp], ∀ p ∈ placeholders,
      ¬p.toList <:+: field.toList) : r.FillsNothing := by
  refine ⟨fill_of_absent ?_, fill_of_absent ?_, fill_of_absent ?_⟩
  · intro entry hentry
    exact h _ (by simp) _ (r.afterMethod_mem entry hentry)
  · intro entry hentry
    exact h _ (by simp) _ (r.afterTarget_mem entry hentry)
  · intro entry hentry
    exact h _ (by simp) _ (r.afterTimestamp_mem entry hentry)

/-! ### What the default template binds -/

/-- Requests with the same rendering have the same lines, and bodies that read
the same as text. -/
theorem rendered_binds {r s : SignedRequest} (hr : r.SingleLine) (hs : s.SingleLine)
    (hrfill : r.FillsNothing) (hsfill : s.FillsNothing) (h : r.rendered = s.rendered) :
    r.method = s.method ∧ r.target = s.target ∧ r.timestamp = s.timestamp ∧
      fromUtf8Lossy r.body = fromUtf8Lossy s.body ∧
      ((fromUtf8 r.body).isSome = true → (fromUtf8 s.body).isSome = true → r.body = s.body) := by
  have hlossy : ∀ q : SignedRequest, q.FillsNothing →
      q.rendered = canonicalV1Payload q.method q.target q.timestamp
        (asBytes (fromUtf8Lossy q.body)) := by
    rintro q ⟨hmethod, htarget, htimestamp⟩
    have hnewline : asBytes "\n" = [0x0A] := by decide
    rw [rendered_eq, hmethod, htarget, htimestamp]
    simp only [canonicalV1Payload, asBytes_append, hnewline, List.append_assoc]
  rw [hlossy r hrfill, hlossy s hsfill] at h
  obtain ⟨hmethod, htarget, htimestamp, hbody⟩ := canonicalV1Payload_inj
    (newline_notMem_asBytes hr.method) (newline_notMem_asBytes hs.method)
    (newline_notMem_asBytes hr.target) (newline_notMem_asBytes hs.target)
    (newline_notMem_asBytes hr.timestamp) (newline_notMem_asBytes hs.timestamp) h
  refine ⟨hmethod, htarget, htimestamp, asBytes_injective hbody, ?_⟩
  intro hrbody hsbody
  exact (asBytes_fromUtf8Lossy_iff.mpr hrbody).symm.trans
    (hbody.trans (asBytes_fromUtf8Lossy_iff.mpr hsbody))

/-- One request line, with any body. -/
def ping (body : Bytes) : SignedRequest := ⟨"POST", "/webhook/ping", "1700000000", body⟩

theorem ping_singleLine (body : Bytes) : (ping body).SingleLine :=
  ⟨show '\n' ∉ "POST".toList by decide, show '\n' ∉ "/webhook/ping".toList by decide,
    show '\n' ∉ "1700000000".toList by decide⟩

/-- A byte that is not text, and the text it is read as. -/
theorem ping_rendered : (ping [0xFF]).rendered = (ping [0xEF, 0xBF, 0xBD]).rendered := by
  have hbody : fromUtf8Lossy [0xFF] = fromUtf8Lossy [0xEF, 0xBF, 0xBD] := by decide
  simp only [rendered, renderCanonicalTemplate, ping, hbody]

theorem rendered_binds_ping :
    (ping [0xFF]).method = (ping [0xEF, 0xBF, 0xBD]).method ∧
      (ping [0xFF]).target = (ping [0xEF, 0xBF, 0xBD]).target ∧
      (ping [0xFF]).timestamp = (ping [0xEF, 0xBF, 0xBD]).timestamp ∧
      fromUtf8Lossy (ping [0xFF]).body = fromUtf8Lossy (ping [0xEF, 0xBF, 0xBD]).body ∧
      ((fromUtf8 (ping [0xFF]).body).isSome = true →
        (fromUtf8 (ping [0xEF, 0xBF, 0xBD]).body).isSome = true →
          (ping [0xFF]).body = (ping [0xEF, 0xBF, 0xBD]).body) := by
  have hfills : ∀ body : Bytes, (ping body).FillsNothing := by
    intro body
    have hplain : ∀ field ∈ ["POST", "/webhook/ping", "1700000000"], ∀ p ∈ placeholders,
        ¬p.toList <:+: field.toList := by decide +kernel
    exact fillsNothing_of_absent hplain
  exact rendered_binds (ping_singleLine _) (ping_singleLine _) (hfills _) (hfills _) ping_rendered

/-- Two bodies under one rendering: the custom template does not bind the body. -/
theorem rendered_ambiguous :
    ¬∀ r s : SignedRequest, r.SingleLine → s.SingleLine → r.rendered = s.rendered → r = s := by
  intro h
  have hsame := h _ _ (ping_singleLine _) (ping_singleLine _) ping_rendered
  exact absurd (congrArg SignedRequest.body hsame) (by decide)

end SignedRequest

end HookExecutor
