import ThreatDesk.Engine.Service
import ThreatDesk.Proofs.Json.Reading
import ThreatDesk.Proofs.Results
import ThreatDesk.Proofs.Text.Padding

/-!
# What a reply may lack

A reply has a text unless a text block carries none (`lacksText_of_error`), and sources unless an
address of theirs has parts (`misaddressed_of_error`). Where it should be a document it is one, or it is
malformed, or it is more than can be read: for the digits of an integer or the brackets in it
(`documentOf_cases`). An integer of too many digits is such a reply (`documentOf_tooLong`).
-/

namespace ThreatDesk

namespace ApiReply

def LacksText (r : ApiReply) : Prop := ∃ b ∈ r.ofType "text", ∀ t, b.get? "text" ≠ some (.text t)

def hits (r : ApiReply) : List Json := (r.ofType "web_search_tool_result").flatMap results

/-- A search result of the reply has an address with parts. -/
def Misaddressed (r : ApiReply) : Prop :=
  ∃ b ∈ r.ofType "web_search_tool_result", ∃ fields url, .object fields ∈ results b ∧
    Json.Fields.get? "url" fields = some url ∧ url.isPresent = true ∧ url.atom? = none

/-- The document in the reply has an integer of too many digits, or more opening brackets than there
may be levels. -/
def Overlong (r : ApiReply) : Prop :=
  ∃ text, r.text = .ok text ∧
    ((∃ fault, Json.Reader.TooLong (Markdown.unfence text) fault) ∨
      Json.nestingLimit < (Markdown.unfence text).countP Json.Reader.opens)

theorem exists_of_textsFrom_error {index : Nat} {values : List Json} {fault : Fault}
    (h : Fault.textsFrom index values = .error fault) : ∃ v ∈ values, ∀ t, v ≠ .text t := by
  induction values generalizing index with
  | nil => exact nomatch h
  | cons v values ih =>
    cases v with
    | text t =>
      obtain ⟨u, hu, hne⟩ := ih (eq_error_of_map_error h)
      exact ⟨u, List.mem_cons_of_mem _ hu, hne⟩
    | _ => exact ⟨_, List.mem_cons_self, fun t ht => by cases ht⟩

theorem lacksText_of_error {r : ApiReply} {fault : Fault} (h : r.text = .error fault) :
    r.LacksText := by
  unfold text at h
  cases hvalues : (r.ofType "text").mapM fun b => b.require "text" with
  | error e =>
    obtain ⟨b, hb, hnone⟩ := exists_of_mapM_error hvalues
    refine ⟨b, hb, fun t ht => ?_⟩
    rw [Block.require, ht] at hnone
    exact nomatch hnone
  | ok values =>
    rw [hvalues] at h
    cases htexts : Fault.textsFrom 0 values with
    | error e =>
      obtain ⟨v, hv, hne⟩ := exists_of_textsFrom_error htexts
      obtain ⟨b, hb, hsome⟩ := exists_of_mem_mapM hvalues hv
      refine ⟨b, hb, fun t ht => ?_⟩
      rw [Block.require, ht] at hsome
      exact hne t (Except.ok.inj hsome).symm
    | ok texts =>
      simp only [bind, Except.bind, htexts] at h
      exact nomatch h

theorem source?_eq_error_iff {v : Json} :
    (∃ fault, source? v = .error fault) ↔ ∃ fields url, v = .object fields ∧
      Json.Fields.get? "url" fields = some url ∧ url.isPresent = true ∧ url.atom? = none := by
  cases v with
  | object fields =>
    have hnull : Json.isPresent .null = false := rfl
    cases hurl : Json.Fields.get? "url" fields with
    | none => simp [source?, hurl, hnull]
    | some url =>
      cases hpresent : url.isPresent with
      | false => simp [source?, hurl, hpresent]
      | true => cases hatom : url.atom? <;> simp [source?, hurl, hpresent, hatom]
  | _ => simp [source?]

theorem misaddressed_iff {r : ApiReply} :
    r.Misaddressed ↔ ∃ v ∈ r.hits, ∃ fault, source? v = .error fault := by
  simp only [Misaddressed, hits, List.mem_flatMap, source?_eq_error_iff]
  constructor
  · rintro ⟨b, hb, fields, url, hv, hurl⟩
    exact ⟨_, ⟨b, hb, hv⟩, fields, url, rfl, hurl⟩
  · rintro ⟨v, ⟨b, hb, hv⟩, fields, url, rfl, hurl⟩
    exact ⟨b, hb, fields, url, hv, hurl⟩

theorem sources_eq (r : ApiReply) :
    r.sources = (r.hits.mapM source?).map fun found => firstOccurrences (found.filterMap id) := by
  unfold sources hits
  cases ((r.ofType "web_search_tool_result").flatMap results).mapM source? <;> rfl

theorem misaddressed_of_error {r : ApiReply} {fault : Fault} (h : r.sources = .error fault) :
    r.Misaddressed := by
  rw [sources_eq] at h
  obtain ⟨v, hv, hfault⟩ := exists_of_mapM_error (eq_error_of_map_error h)
  exact misaddressed_iff.2 ⟨v, hv, fault, hfault⟩

def saying (t : Text) : ApiReply := ⟨some [⟨[("type", .text "text"), ("text", .text t)]⟩], .null⟩

theorem text_saying (t : Text) : (saying t).text = .ok t.trim := by
  have hflat : [t].flatten = t := by simp
  exact congrArg (fun u => Except.ok (Text.trim u)) hflat

end ApiReply

namespace Engine.Service

def documentOf (r : ApiReply) : Except Failure Json := do
  let text ← r.text.mapError .fault
  (Json.ofText (Markdown.unfence text)).mapError replyFailure

theorem documentOf_of_text {r : ApiReply} {text : Text} (h : r.text = .ok text) :
    documentOf r = (Json.ofText (Markdown.unfence text)).mapError replyFailure := by
  rw [documentOf, h]
  rfl

theorem documentOf_cases (r : ApiReply) :
    (∃ v, documentOf r = .ok v) ∨ (∃ message, documentOf r = .error (.malformed message)) ∨
      ∃ fault, documentOf r = .error (.fault fault) ∧ (r.LacksText ∨ r.Overlong) := by
  cases htext : r.text with
  | error fault =>
    refine .inr (.inr ⟨fault, ?_, .inl (ApiReply.lacksText_of_error htext)⟩)
    rw [documentOf, htext]
    rfl
  | ok text =>
    rw [documentOf_of_text htext]
    cases hv : Json.ofText (Markdown.unfence text) with
    | ok v => exact .inl ⟨v, rfl⟩
    | error fault =>
      have hrefuses := Json.refuses_ofText hv
      cases fault with
      | malformed | undecodable => exact .inr (.inl ⟨_, rfl⟩)
      | number fault => exact .inr (.inr ⟨_, rfl, .inr ⟨text, htext, .inl ⟨fault, hrefuses⟩⟩⟩)
      | nested => exact .inr (.inr ⟨_, rfl, .inr ⟨text, htext, .inr hrefuses⟩⟩)

theorem isWord_ofNat (n : Nat) : Text.IsWord (Text.ofNat n) := by
  refine ⟨Text.ofNat_ne_nil n, fun c hc => ?_⟩
  have hdigit := Text.isDigit_of_mem_ofNat n c hc
  simp only [CodePoint.isDigit, Bool.and_eq_true, decide_eq_true_eq] at hdigit
  simp [CodePoint.isBlank]
  omega

theorem unfence_ofNat (n : Nat) : Markdown.unfence (Text.ofNat n) = Text.ofNat n := by
  have hword := isWord_ofNat n
  have hfence : ¬ ((Text.ofNat n).startsWith Markdown.fence = true) := by
    intro h
    obtain ⟨rest, hrest⟩ := Text.startsWith_iff.1 h
    have hmem : ('\x60' : CodePoint) ∈ Text.ofNat n := hrest ▸ List.mem_cons_self
    exact absurd (Text.isDigit_of_mem_ofNat n _ hmem) (by decide)
  rw [Markdown.unfence, hword.isTrimmed.trim hword.1, if_neg hfence]

theorem documentOf_tooLong {n : Nat} (hn : tenTo Integer.digitLimit ≤ n) {r : ApiReply}
    (h : r.text = .ok (Text.ofNat n)) :
    documentOf r = .error (.fault (.integer (.tooLong (Text.ofNat n).length))) := by
  have hdocument := Json.ofText_tooLong (n := Int.ofNat n) hn
  rw [documentOf_of_text h, unfence_ofNat]
  exact congrArg (·.mapError replyFailure) hdocument

theorem mapM_text?_eq_some_iff {items : List Json} {texts : List Text} :
    items.mapM Json.text? = some texts ↔ items = texts.map .text := by
  induction items generalizing texts with
  | nil => cases texts <;> simp
  | cons item items ih =>
    have hitem (t : Text) : item.text? = some t ↔ item = .text t := by
      cases item <;> simp [Json.text?]
    cases texts with
    | nil => simp [List.mapM_cons, Option.bind_eq_some_iff]
    | cons t texts => simp [List.mapM_cons, Option.bind_eq_some_iff, hitem, ih]

theorem queriesOf?_eq_some_iff {v : Json} {queries : List Text} :
    queriesOf? v = some queries ↔ v = .array (queries.map .text) := by
  cases v with
  | array items => rw [queriesOf?, mapM_text?_eq_some_iff, Json.array.injEq]
  | _ => exact iff_of_false (fun h => by cases h) fun h => by cases h

/-- An object with a text for its name and one for its content. -/
def IsArtifact (v : Json) (x : Artifact) : Prop :=
  ∃ fields, v = .object fields ∧ Json.Fields.get? "name" fields = some (.text x.name) ∧
    Json.Fields.get? "content" fields = some (.text x.content)

theorem artifact?_eq_some_iff {v : Json} {x : Artifact} : artifact? v = some x ↔ IsArtifact v x := by
  constructor
  · intro h
    unfold artifact? at h
    split at h
    · next fields =>
      split at h
      · next hname hcontent =>
        obtain rfl := Option.some.inj h
        exact ⟨fields, rfl, hname, hcontent⟩
      · cases h
    · cases h
  · rintro ⟨fields, rfl, hname, hcontent⟩
    simp only [artifact?, hname, hcontent]

end Engine.Service

end ThreatDesk
