import ThreatDesk.Proofs.Engine.Researching
import ThreatDesk.Proofs.Number.Values

/-!
# The sources of a report

The search results of a reply that have an address are cited, each address where it comes first. What is
listed is given by what stands in front of each source: results whose addresses are listed before it, and
nothing else (`sourcesOf_firstOccurrences`). Only an address with parts keeps a reply from having sources
(`sources_eq_ok_iff`). Main statement: `research_cites_sources_once`.
-/

namespace ThreatDesk

namespace ApiReply

variable {r : ApiReply} {items : List Json} {v : Json} {s t : Source} {ss found : List Source}

/-- A search result with an address, and the source that it makes. -/
def Cites (v : Json) (s : Source) : Prop :=
  ∃ fields url, v = .object fields ∧ Json.Fields.get? "url" fields = some url ∧
    url.isPresent = true ∧ url.atom? = some s.url ∧
    s.title = titleOf ((Json.Fields.get? "title" fields).getD .null)

/-- The sources of search results: each of the addresses once, in the order in which they come first and
with the title that it has there. -/
structure SourcesOf (items : List Json) (ss : List Source) : Prop where
  /-- A source is cited by a result, and those in front of it cite sources that are listed before it. -/
  first : ∀ before s after, ss = before ++ s :: after →
    ∃ front v back, items = front ++ v :: back ∧ Cites v s ∧
      ∀ w ∈ front, ∀ t, Cites w t →
        t.url.same s.url = false ∧ ∃ u ∈ before, u.url.same t.url = true
  all : ∀ v ∈ items, ∀ t, Cites v t → ∃ s ∈ ss, s.url.same t.url = true
  once : ss.Pairwise fun s t => s.url.same t.url = false

/-! ## Results that are cited -/

def citation? (v : Json) : Option Source := (source? v).toOption.join

theorem citation?_eq_some_iff : citation? v = some s ↔ Cites v s := by
  constructor
  · intro h
    cases v with
    | object fields =>
      rw [citation?, source?] at h
      cases hurl : Json.Fields.get? "url" fields with
      | none =>
        rw [hurl] at h
        cases h
      | some url =>
        simp only [hurl, Option.getD_some] at h
        split at h
        · cases h
        · next hpresent =>
          split at h
          · cases h
          · next a ha =>
            obtain rfl := Option.some.inj h
            exact ⟨fields, url, rfl, hurl, by simpa using hpresent, ha, rfl⟩
    | _ => cases h
  · rintro ⟨fields, url, rfl, hurl, hpresent, hatom, htitle⟩
    obtain ⟨title, address⟩ := s
    have htitle : title = titleOf ((Json.Fields.get? "title" fields).getD .null) := htitle
    have hatom : url.atom? = some address := hatom
    simp [citation?, source?, hurl, hpresent, hatom, htitle, Except.toOption]

theorem sources_eq_ok_iff :
    r.sources = .ok ss ↔ ¬ r.Misaddressed ∧ ss = firstOccurrences (r.hits.filterMap citation?) := by
  rw [sources_eq, misaddressed_iff]
  cases hfound : r.hits.mapM source? with
  | error fault =>
    obtain ⟨v, hv, hfault⟩ := exists_of_mapM_error hfound
    refine iff_of_false (by simp [Except.map]) ?_
    exact fun h => h.1 ⟨v, hv, fault, hfault⟩
  | ok found =>
    have hmap := mapM_eq_ok_iff.1 hfound
    have hno : ¬ ∃ v ∈ r.hits, ∃ fault, source? v = .error fault := by
      rintro ⟨v, hv, fault, hfault⟩
      have hmem : source? v ∈ found.map Except.ok := hmap ▸ List.mem_map_of_mem hv
      simp [hfault] at hmem
    have hcited : r.hits.filterMap citation? = found.filterMap id := by
      have hjoin : citation? = (fun x : Except Fault (Option Source) => x.toOption.join) ∘ source? := rfl
      rw [hjoin, ← List.filterMap_map, hmap, List.filterMap_map]
      rfl
    rw [hcited, and_iff_right hno]
    exact ⟨fun h => (Except.ok.inj h).symm, fun h => congrArg _ h.symm⟩

/-! ## Each address once -/

theorem not_same_symm (h : s.url.same t.url = false) : t.url.same s.url = false := by
  rw [← Bool.not_eq_true] at h ⊢
  exact fun hts => h (Json.Atom.same_symm hts)

theorem exists_same_of_mem (h : t ∈ found) :
    ∃ s ∈ firstOccurrences found, s.url.same t.url = true := by
  induction found with
  | nil => cases h
  | cons u found ih =>
    rw [firstOccurrences]
    by_cases hu : t.url.same u.url = true
    · exact ⟨u, List.mem_cons_self, Json.Atom.same_symm hu⟩
    · rcases List.mem_cons.1 h with rfl | h
      · exact absurd t.url.same_self hu
      · obtain ⟨s, hs, hst⟩ := ih h
        refine ⟨s, List.mem_cons_of_mem _ (List.mem_filter.2 ⟨hs, ?_⟩), hst⟩
        rw [Bool.not_eq_true', ← Bool.not_eq_true]
        exact fun hsu => hu (Json.Atom.same_trans (Json.Atom.same_symm hst) hsu)

theorem pairwise_firstOccurrences (found : List Source) :
    (firstOccurrences found).Pairwise fun s t => s.url.same t.url = false := by
  induction found with
  | nil => exact .nil
  | cons u found ih =>
    rw [firstOccurrences]
    refine .cons ?_ (ih.sublist List.filter_sublist)
    intro t ht
    have hne := (List.mem_filter.1 ht).2
    rw [Bool.not_eq_true'] at hne
    exact not_same_symm hne

/-- What stands in front of a source that is kept: others, whose addresses are kept before it. -/
theorem front_of_firstOccurrences {before after : List Source}
    (h : firstOccurrences found = before ++ s :: after) :
    ∃ front back, found = front ++ s :: back ∧ ∀ t ∈ front,
      t.url.same s.url = false ∧ ∃ u ∈ before, u.url.same t.url = true := by
  induction found generalizing before after with
  | nil => exact absurd h.symm (by simp [firstOccurrences])
  | cons u found ih =>
    rw [firstOccurrences] at h
    cases before with
    | nil =>
      obtain ⟨rfl, -⟩ := List.cons.inj h
      exact ⟨[], found, rfl, List.forall_mem_nil _⟩
    | cons w before =>
      obtain ⟨rfl, hrest⟩ := List.cons.inj h
      -- The source stands behind what was dropped for the sake of the first one.
      obtain ⟨kept, others, hkept, hbefore, hothers⟩ := List.filter_eq_append_iff.1 hrest
      obtain ⟨dropped, rest, rfl, hdropped, hs, -⟩ := List.filter_eq_cons_iff.1 hothers
      rw [Bool.not_eq_true'] at hs
      rw [← List.append_assoc] at hkept
      obtain ⟨front, back, rfl, hfront⟩ := ih hkept
      refine ⟨u :: front, back, rfl, List.forall_mem_cons.2 ⟨?_, ?_⟩⟩
      · exact ⟨not_same_symm hs, u, List.mem_cons_self, u.url.same_self⟩
      · intro t ht
        obtain ⟨hts, x, hx, hxt⟩ := hfront t ht
        refine ⟨hts, ?_⟩
        by_cases hxu : x.url.same u.url = true
        · exact ⟨u, List.mem_cons_self, Json.Atom.same_trans (Json.Atom.same_symm hxu) hxt⟩
        · rcases List.mem_append.1 hx with hx | hx
          · refine ⟨x, List.mem_cons_of_mem _ ?_, hxt⟩
            rw [← hbefore]
            exact List.mem_filter.2 ⟨hx, by simpa using hxu⟩
          · exact absurd (by simpa using hxu) (hdropped x hx)

theorem sourcesOf_firstOccurrences (items : List Json) :
    SourcesOf items (firstOccurrences (items.filterMap citation?)) where
  first before s after h := by
    obtain ⟨front, back, hcited, hfront⟩ := front_of_firstOccurrences h
    obtain ⟨behind, rest, rfl, rfl, hrest⟩ := List.filterMap_eq_append_iff.1 hcited
    obtain ⟨between, v, back', rfl, hbetween, hv, -⟩ := List.filterMap_eq_cons_iff.1 hrest
    refine ⟨behind ++ between, v, back', (List.append_assoc ..).symm, citation?_eq_some_iff.1 hv, ?_⟩
    intro w hw t ht
    have hsome := citation?_eq_some_iff.2 ht
    rcases List.mem_append.1 hw with hw | hw
    · exact hfront t (List.mem_filterMap.2 ⟨w, hw, hsome⟩)
    · rw [hbetween w hw] at hsome
      cases hsome
  all v hv t ht :=
    exists_same_of_mem (List.mem_filterMap.2 ⟨v, hv, citation?_eq_some_iff.2 ht⟩)
  once := pairwise_firstOccurrences _

end ApiReply

namespace Engine

open Service
open ApiReply (SourcesOf)

def cited (text : Text) (ss : List ApiReply.Source) : Text :=
  let body : Text := if text = [] then "No intelligence gathered." else text
  let heading : Text := "\n\n## NEW VERIFIED SOURCES\n"
  body ++ if ss = [] then [] else heading ++ ss.flatMap sourceLine

def Reported (r : ApiReply) (report : Text) : Prop :=
  ∃ text ss, r.text = .ok text ∧ r.sources = .ok ss ∧ report = cited text ss

theorem reportOf_eq (text : Text) (ss : List ApiReply.Source) : reportOf text ss = cited text ss := by
  unfold reportOf withSources cited
  simp only [List.isEmpty_iff]
  by_cases hss : ss = []
  · rw [if_pos hss, if_pos hss, List.append_nil]
  · rw [if_neg hss, if_neg hss, List.append_assoc]

/-- A reply whose addresses have no parts has sources: each address of its search results once, where it
comes first. The report of the research that the reply is the search of has them behind the text. -/
theorem research_cites_sources_once {r : ApiReply} (hr : ¬ r.Misaddressed) :
    (∃ ss, r.sources = .ok ss ∧ SourcesOf r.hits ss) ∧
    ∀ (script : Nat → Except Text ApiReply) (config : ServiceConfig) (keys : KeyStore)
      (s : Online (List ApiCall)) (h : Host) (existing context : Text),
      let n := s.client.length
      let a := (online (.scripted script) keys config).attend s h (.research existing context)
      script (n + 1) = .ok r →
        (∀ result, a.reply = .ok result → Reported r result.report) ∧
        ((∃ key, keys.key h = .ok (some key) ∧ key ≠ []) → (∃ plan, script n = .ok plan) →
          ¬ Unread script n → ∃ result, a.reply = .ok result) := by
  constructor
  · exact ⟨_, ApiReply.sources_eq_ok_iff.2 ⟨hr, rfl⟩, ApiReply.sourcesOf_firstOccurrences r.hits⟩
  · intro script config keys s h existing context n a hsearch
    constructor
    · intro result hresult
      obtain ⟨queries, text, ss, found, told, hresearched, rfl, -⟩ :=
        researched_of_reply script config hresult
      obtain ⟨r', hr', htext, hss⟩ := hresearched.search
      obtain rfl := Except.ok.inj (hsearch.symm.trans hr')
      exact ⟨text, ss, htext, hss, reportOf_eq text ss⟩
    · rintro ⟨key, hkey, hne⟩ ⟨plan, hplan⟩ hread
      obtain ⟨result, t, hrun, hcases⟩ := research_cases script config
        (s := (⟨s.key, (h, s.client), []⟩ : ServiceState (Host × List ApiCall))) hkey hne existing
        context
      have ha : a = ⟨⟨t.client, t.outside.2⟩, t.progress.map .progress, result⟩ :=
        attend_research hrun
      rw [ha]
      rcases hcases with ⟨message, hs, -⟩ | ⟨hunread, -⟩ | ⟨_, _, _, _, _, -, rfl, -⟩
      · -- Both calls were answered.
        rcases hs with hs | hs
        · cases hplan.symm.trans hs
        · cases hsearch.symm.trans hs
      · exact absurd hunread hread
      · exact ⟨_, rfl⟩

theorem research_cites_sources_once_again :
    let result (title url : Json) : Json := .object [("title", title), ("url", url)]
    let block (type : Text) (content : Json) : Block := ⟨[("type", .text type), ("content", content)]⟩
    let kind : Text := "web_search_tool_result"
    let blocks : List Block := [
      ⟨[("type", .text "text"), ("text", .text "R")]⟩,
      block kind (.array [.number 7, result (.text "T") (.text "u"), result (.text "E") (.text [])]),
      block kind (.object [("error_code", .text "unavailable")]),
      block "server_tool_use" (.array [result (.text "N") (.text "n")]),
      block kind (.array [result (.text "O") (.text "u"), result .null (.text "v")])]
    let r : ApiReply := ⟨some blocks, .null⟩
    let script : Nat → Except Text ApiReply := fun n => .ok (if n = 1 then r else .saying "[]")
    let keys : KeyStore := ⟨HostPath.ofText "/k", KeyStore.defaultVariable⟩
    let host : Host := ⟨0, [(KeyStore.defaultVariable, "k")], HostPath.ofText "/", [], [], []⟩
    let a := (online (.scripted script) keys ⟨.null, 1, 1⟩).attend ⟨none, []⟩ host (.research [] [])
    ¬ r.Misaddressed ∧ r.sources = .ok [⟨"T", .text "u"⟩, ⟨[], .text "v"⟩] ∧
      SourcesOf r.hits [⟨"T", .text "u"⟩, ⟨[], .text "v"⟩] ∧
      ∃ result, a.reply = .ok result ∧ Reported r result.report ∧
        result.report = "R\n\n## NEW VERIFIED SOURCES\n- [T](u)\n- [Source](v)\n" := by
  intro result block kind blocks r script keys host a
  have hsources : r.sources = .ok [⟨"T", .text "u"⟩, ⟨[], .text "v"⟩] := by rfl
  have hr : ¬ r.Misaddressed := (ApiReply.sources_eq_ok_iff.1 hsources).1
  obtain ⟨⟨ss, hss, hlisted⟩, hresearch⟩ := research_cites_sources_once hr
  obtain rfl := Except.ok.inj (hsources.symm.trans hss)
  have hreport : a.reply.toOption.map ResearchReport.report =
      some ("R\n\n## NEW VERIFIED SOURCES\n- [T](u)\n- [Source](v)\n" : Text) := by
    decide +kernel
  obtain ⟨hreported, -⟩ := hresearch script ⟨.null, 1, 1⟩ keys ⟨none, []⟩ host [] [] rfl
  refine ⟨hr, hsources, hlisted, ?_⟩
  cases hreply : a.reply with
  | error failure =>
    rw [hreply] at hreport
    cases hreport
  | ok found =>
    rw [hreply] at hreport
    exact ⟨found, rfl, hreported found hreply, Option.some.inj hreport⟩

/-- An address with parts is an address, and there is no listing it: research ends in a fault. -/
theorem research_cites_no_parts :
    let url : Json := .array [.text "a"]
    let found : Json := .object [("url", url), ("title", .text "t")]
    let r : ApiReply := ⟨some [⟨[("type", .text "web_search_tool_result"), ("content", .array [found])]⟩,
      ⟨[("type", .text "text"), ("text", .text "R")]⟩], .null⟩
    let script : Nat → Except Text ApiReply := fun n => .ok (if n = 1 then r else .saying "[]")
    let keys : KeyStore := ⟨HostPath.ofText "/k", KeyStore.defaultVariable⟩
    let host : Host := ⟨0, [(KeyStore.defaultVariable, "k")], HostPath.ofText "/", [], [], []⟩
    let a := (online (.scripted script) keys ⟨.null, 1, 1⟩).attend ⟨none, []⟩ host (.research [] [])
    found ∈ r.hits ∧ url.isPresent = true ∧ r.sources = .error (.notAtom url) ∧
      ¬ ∃ result, a.reply = .ok result := by
  intro url found r script keys host a
  have hmem : found ∈ r.hits := List.mem_singleton_self found
  have hfailed : a.reply.toOption.isNone = true := by decide +kernel
  refine ⟨hmem, rfl, rfl, ?_⟩
  rintro ⟨result, hresult⟩
  rw [hresult] at hfailed
  cases hfailed

end Engine

end ThreatDesk
