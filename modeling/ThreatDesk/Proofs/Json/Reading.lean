import ThreatDesk.Proofs.Json.RoundTrip
import ThreatDesk.Proofs.Number.Rounding
import ThreatDesk.Proofs.Results

/-!
# What reading a document can come to

Whatever a document says, a value that is read from it is the one its own document stands for, and is
nested within the limit (`fits_ofUnmarked`). The only number that stops the reader is an integer of more
digits than can be read, and these digits stand in the document; what stops it for its depth has more
opening brackets than there may be levels (`refuses_ofUnmarked`). All this is one law of the reader
(`Gives`), proved along its own recursion.
-/

namespace ThreatDesk

namespace Json

theorem exactItems_iff {vs : List Json} : ExactItems vs ↔ ∀ v ∈ vs, Exact v := by
  induction vs with
  | nil => simp [ExactItems]
  | cons v vs ih => simp [ExactItems, ih]

theorem exactFields_iff {fs : Fields} : ExactFields fs ↔ ∀ f ∈ fs, Exact f.2 := by
  induction fs with
  | nil => simp [ExactFields]
  | cons f fs ih => simp [ExactFields, ih]

theorem nestingItems_le_iff {vs : List Json} {d : Nat} :
    nestingItems vs ≤ d ↔ ∀ v ∈ vs, nesting v ≤ d := by
  induction vs with
  | nil => simp [nestingItems]
  | cons v vs ih => simp [nestingItems, ih]

theorem nestingFields_le_iff {fs : Fields} {d : Nat} :
    nestingFields fs ≤ d ↔ ∀ f ∈ fs, nesting f.2 ≤ d := by
  induction fs with
  | nil => simp [nestingFields]
  | cons f fs ih => simp [nestingFields, ih]

/-- Whether a value is the one that its document stands for and is nested at most `depth` deep. -/
structure Fits (depth : Nat) (v : Json) : Prop where
  exact : Exact v
  nesting : v.nesting ≤ depth

theorem fits_array {depth : Nat} {vs : List Json} (h : ∀ v ∈ vs, Fits depth v) :
    Fits (depth + 1) (.array vs) where
  exact := exactItems_iff.2 fun v hv => (h v hv).exact
  nesting := Nat.succ_le_succ (nestingItems_le_iff.2 fun v hv => (h v hv).nesting)

theorem fits_object {depth : Nat} {fs : Fields} (hn : (fs.map Prod.fst).Nodup)
    (h : ∀ f ∈ fs, Fits depth f.2) : Fits (depth + 1) (.object fs) where
  exact := ⟨hn, exactFields_iff.2 fun f hf => (h f hf).exact⟩
  nesting := Nat.succ_le_succ (nestingFields_le_iff.2 fun f hf => (h f hf).nesting)

/-! ## Fields of one name -/

namespace Fields

theorem mem_of_get? {name : Text} {fields : Fields} {v : Json}
    (h : get? name fields = some v) : ∃ k, (k, v) ∈ fields := by
  fun_induction get? name fields with
  | case1 => exact nomatch h
  | case2 w fields => exact ⟨name, Option.some.inj h ▸ List.mem_cons_self⟩
  | case3 k w fields hk ih =>
    obtain ⟨j, hj⟩ := ih h
    exact ⟨j, List.mem_cons_of_mem _ hj⟩

theorem mem_put {name : Text} {value : Json} {fields : Fields} {f : Text × Json}
    (h : f ∈ put name value fields) : f = (name, value) ∨ f ∈ fields := by
  fun_induction put name value fields with
  | case1 => exact .inl (List.mem_singleton.1 h)
  | case2 v fields =>
    rcases List.mem_cons.1 h with h | h
    · exact .inl h
    · exact .inr (List.mem_cons_of_mem _ h)
  | case3 k v fields hk ih =>
    rcases List.mem_cons.1 h with rfl | h
    · exact .inr List.mem_cons_self
    · exact (ih h).imp_right (List.mem_cons_of_mem _)

theorem nodup_put {name : Text} {value : Json} {fields : Fields}
    (h : (fields.map Prod.fst).Nodup) : ((put name value fields).map Prod.fst).Nodup := by
  fun_induction put name value fields with
  | case1 => exact List.nodup_singleton _
  | case2 v fields => exact h
  | case3 k v fields hk ih =>
    obtain ⟨hmem, hrest⟩ := List.nodup_cons.1 h
    refine List.nodup_cons.2 ⟨fun hm => ?_, ih hrest⟩
    obtain ⟨f, hf, hname⟩ := List.mem_map.1 hm
    rcases mem_put hf with rfl | hf
    · exact hk hname.symm
    · exact hmem (hname ▸ List.mem_map_of_mem hf)

theorem foldl_put_induction {p : Fields → Prop} {pairs : List (Text × Json)}
    (hstep : ∀ f ∈ pairs, ∀ fields, p fields → p (put f.1 f.2 fields)) {read : Fields}
    (hread : p read) : p (pairs.foldl (fun fields (k, v) => put k v fields) read) := by
  induction pairs generalizing read with
  | nil => exact hread
  | cons f pairs ih =>
    obtain ⟨hfirst, hrest⟩ := List.forall_mem_cons.1 hstep
    exact ih hrest (hfirst read hread)

theorem nodup_ofPairs (pairs : List (Text × Json)) : ((ofPairs pairs).map Prod.fst).Nodup :=
  foldl_put_induction (p := fun fields => (fields.map Prod.fst).Nodup)
    (fun _ _ _ h => nodup_put h) List.nodup_nil

theorem mem_ofPairs {pairs : List (Text × Json)} {f : Text × Json} (h : f ∈ ofPairs pairs) :
    f ∈ pairs := by
  have hsubset := foldl_put_induction (p := fun fields => fields ⊆ pairs)
    (fun f hf fields h g hg => (mem_put hg).elim (fun he => he ▸ hf) (fun hm => h hm))
    (List.nil_subset pairs)
  exact hsubset h

end Fields

namespace Reader

/-! ## What a reader gives -/

/-- The fault of an integer: its digits, more than can be read, stand in a row in the text. -/
def TooLong (t : Text) (fault : Integer.Fault) : Prop :=
  ∃ digits : Text, fault = .tooLong digits.length ∧ Integer.digitLimit < digits.length ∧
    (∀ c ∈ digits, c.isDigit = true) ∧ digits <:+: t

def opens (c : CodePoint) : Bool := c = '[' || c = '\x7b'

/-- What reading from `t` may come to: something of the property with an end of the text behind it, an
integer with too many digits, more than `depth` opening brackets, or a fault of another kind. -/
def Gives {α : Type} (depth : Nat) (p : α → Prop) (t : Text) : Result α → Prop
  | .ok (a, rest) => p a ∧ rest <:+ t
  | .error (.number fault) => TooLong t fault
  | .error (.nested _) => depth < t.countP opens
  | .error (.problem _ _) => True

variable {α β : Type} {p : α → Prop} {q : β → Prop} {s t : Text} {depth : Nat}

theorem TooLong.of_suffix {fault : Integer.Fault} (h : TooLong s fault) (hs : s <:+ t) :
    TooLong t fault := by
  obtain ⟨digits, hfault, hlong, hdigits, hin⟩ := h
  exact ⟨digits, hfault, hlong, hdigits, hin.trans hs.isInfix⟩

theorem Gives.of_suffix {r : Result α} (h : Gives depth p s r) (hs : s <:+ t) : Gives depth p t r := by
  match r with
  | .ok _ => exact ⟨h.1, h.2.trans hs⟩
  | .error (.number _) => exact TooLong.of_suffix h hs
  | .error (.nested _) => exact Nat.lt_of_lt_of_le h hs.sublist.countP_le
  | .error (.problem _ _) => trivial

theorem Gives.of_opens {r : Result α} (h : Gives depth p t r) {c : CodePoint} (hc : opens c = true) :
    Gives (depth + 1) p (c :: t) r := by
  have hs : t <:+ c :: t := List.suffix_cons c t
  match r with
  | .ok _ => exact ⟨h.1, h.2.trans hs⟩
  | .error (.number _) => exact TooLong.of_suffix h hs
  | .error (.nested _) =>
    show depth + 1 < (c :: t).countP opens
    rw [List.countP_cons_of_pos hc]
    exact Nat.succ_lt_succ h
  | .error (.problem _ _) => trivial

theorem Gives.error {r : Result α} (h : Gives depth p t r) {stop : Stop} (hr : r = .error stop) :
    Gives depth q t (.error stop) := by
  subst hr
  match stop with
  | .number _ | .nested _ => exact h
  | .problem _ _ => trivial

theorem Gives.ok {r : Result α} (h : Gives depth p t r) {a : α} {rest : Text} (hr : r = .ok (a, rest)) :
    p a ∧ rest <:+ t := by
  subst hr
  exact h

theorem Gives.map {r : Result α} (h : Gives depth p t r) {f : α → β} (hf : ∀ a, p a → q (f a)) :
    Gives depth q t (r.map fun (a, rest) => (f a, rest)) := by
  match r with
  | .ok (a, rest) => exact ⟨hf a h.1, h.2⟩
  | .error (.number _) | .error (.nested _) => exact h
  | .error (.problem _ _) => trivial

theorem skipSpace_suffix (t : Text) : skipSpace t <:+ t := List.dropWhile_suffix _

theorem suffix_of_skipSpace {c : CodePoint} {rest : Text} (h : skipSpace t = c :: rest) :
    rest <:+ t :=
  (List.suffix_cons c rest).trans (h ▸ skipSpace_suffix t)

/-! ## Strings and words -/

theorem escape_error {start t : Text} {stop : Stop} (h : escape start t = .error stop) :
    ∃ problem rest, stop = .problem problem rest := by
  unfold escape at h
  repeat' split at h
  all_goals cases h
  all_goals exact ⟨_, _, rfl⟩

theorem gives_string (start read : Text) (skip : Nat) (t : Text) :
    Gives depth (fun _ => True) t (string start read skip t) := by
  fun_induction string start read skip t with
  | case1 => trivial
  | case2 read skip c t ih => exact ih.of_suffix (List.suffix_cons c t)
  | case3 read t => exact ⟨trivial, List.suffix_cons _ t⟩
  | case4 read t stop hescape =>
    obtain ⟨problem, rest, rfl⟩ := escape_error hescape
    trivial
  | case5 read t d length hescape _ ih => exact ih.of_suffix (List.suffix_cons _ t)
  | case6 => trivial
  | case7 read c t hquote hslash hcontrol ih => exact ih.of_suffix (List.suffix_cons c t)

theorem fits_word? {depth : Nat} {rest : Text} {v : Json} (h : word? t = some (v, rest)) :
    Fits depth v ∧ rest <:+ t := by
  obtain ⟨⟨word, value⟩, hw, hv⟩ := List.exists_of_findSome?_eq_some h
  obtain ⟨behind, ha, hpair⟩ := Option.map_eq_some_iff.1 hv
  obtain ⟨rfl, rfl⟩ := Prod.mk.inj hpair
  refine ⟨?_, word, (Text.after?_eq_some.1 ha).symm⟩
  simp only [words, List.mem_cons, List.not_mem_nil, or_false] at hw
  rcases hw with hw | hw | hw | hw | hw | hw <;> obtain rfl := (Prod.mk.inj hw).2 <;>
    exact ⟨trivial, Nat.zero_le _⟩

/-! ## Numbers -/

theorem whole?_eq_some {whole rest : Text} (h : whole? t = some (whole, rest)) :
    (∀ c ∈ whole, c.isDigit = true) ∧ whole ++ rest = t := by
  cases t with
  | nil => cases h
  | cons c t =>
    rw [whole?] at h
    split at h
    · next hc =>
      obtain ⟨rfl, rfl⟩ := Prod.mk.inj (Option.some.inj h)
      exact ⟨List.forall_mem_singleton.2 (hc ▸ by decide), rfl⟩
    · split at h
      · next hc =>
        obtain ⟨rfl, rfl⟩ := Prod.mk.inj (Option.some.inj h)
        refine ⟨List.forall_mem_cons.2 ⟨hc, fun d hd => List.mem_takeWhile_imp hd⟩, ?_⟩
        rw [List.cons_append, List.takeWhile_append_dropWhile]
      · cases h

theorem suffix_of_fraction? {places rest : Text} (h : fraction? t = some (places, rest)) :
    rest <:+ t := by
  unfold fraction? at h
  split at h
  · next point d t =>
    split at h
    · obtain ⟨-, rfl⟩ := Prod.mk.inj (Option.some.inj h)
      exact (List.dropWhile_suffix _).trans ((List.suffix_cons d t).trans (List.suffix_cons point _))
    · exact nomatch h
  · exact nomatch h

theorem suffix_of_exponent? {power : Int} {rest : Text} (h : exponent? t = some (power, rest)) :
    rest <:+ t := by
  unfold exponent? at h
  split at h
  · cases h
  · next e t =>
    split at h
    · split at h
      next negative unsigned hunsigned =>
      dsimp only at h
      split at h
      · cases h
      · obtain ⟨-, rfl⟩ := Prod.mk.inj (Option.some.inj h)
        -- A sign is passed over; anything else is where the digits begin.
        have hsign : unsigned <:+ t := by
          repeat' split at hunsigned
          all_goals obtain ⟨-, rfl⟩ := Prod.mk.inj hunsigned
          all_goals first | exact List.suffix_rfl | exact List.suffix_cons _ _
        exact ((List.dropWhile_suffix _).trans hsign).trans (List.suffix_cons e t)
    · cases h

theorem digitsValue_lt {digits : Text} (h : ∀ c ∈ digits, c.isDigit = true) :
    digitsValue digits < tenTo digits.length := by
  induction digits using List.reverseRecOn with
  | nil => exact Nat.one_pos
  | append_singleton digits c ih =>
    have hrest := ih fun d hd => h d (List.mem_append_left _ hd)
    have hc := h c (List.mem_append_right _ List.mem_cons_self)
    simp only [CodePoint.isDigit, Bool.and_eq_true, decide_eq_true_eq] at hc
    have hone : tenTo 1 = 10 := rfl
    rw [digitsValue_append, List.length_append, List.length_singleton, tenTo_add, hone]
    omega

theorem number_cases (start t : Text) :
    number start t = .error (.problem .value start) ∨
      ∃ (negative : Bool) (whole behind : Text), (∀ c ∈ whole, c.isDigit = true) ∧
        whole ++ behind <:+ t ∧
        ((∃ digits power rest, rest <:+ behind ∧ number start t =
            .ok (.number (.real (Binary64.ofDecimal negative digits power)), rest)) ∨
          number start t =
            if whole.length > Integer.digitLimit then .error (.number (.tooLong whole.length))
            else
              let n := Int.ofNat (digitsValue whole)
              .ok (.number (.integer (if negative then -n else n)), behind)) := by
  unfold number
  split
  next negative unsigned hsign =>
  have hunsigned : unsigned <:+ t := by
    repeat' split at hsign
    all_goals obtain ⟨-, rfl⟩ := Prod.mk.inj hsign
    all_goals first | exact List.suffix_rfl | exact List.suffix_cons _ _
  split
  · exact .inl rfl
  · next whole behind hwhole =>
    obtain ⟨hdigits, rfl⟩ := whole?_eq_some hwhole
    refine .inr ⟨negative, whole, behind, hdigits, hunsigned, ?_⟩
    cases hplaces : fraction? behind with
    | some placed =>
      have hplaced := suffix_of_fraction? hplaces
      cases hpower : exponent? placed.2 with
      | some raised =>
        have hraised := (suffix_of_exponent? hpower).trans hplaced
        exact .inl ⟨_, _, raised.2, hraised, by simp only [hpower, Bool.true_or, if_true]; rfl⟩
      | none =>
        exact .inl ⟨_, _, placed.2, hplaced, by simp only [hpower, Bool.true_or, if_true]; rfl⟩
    | none =>
      cases hpower : exponent? behind with
      | some raised =>
        have hraised := suffix_of_exponent? hpower
        exact .inl ⟨_, _, raised.2, hraised, by simp only [hpower, Bool.or_true, if_true]; rfl⟩
      | none => exact .inr (by simp only [hpower, Bool.or_false]; rfl)

theorem gives_number (start t : Text) (depth : Nat) : Gives depth (Fits depth) t (number start t) := by
  rcases number_cases start t with h | ⟨negative, whole, behind, hdigits, hin, h⟩
  · rw [h]
    trivial
  · have hbehind : behind <:+ t := (List.suffix_append whole behind).trans hin
    rcases h with ⟨digits, power, rest, hrest, h⟩ | h
    · rw [h]
      exact ⟨⟨Binary64.isCanonical_ofDecimal .., Nat.zero_le _⟩, hrest.trans hbehind⟩
    · rw [h]
      split
      · next hlong =>
        exact ⟨whole, rfl, hlong, hdigits, (List.prefix_append whole behind).isInfix.trans hin.isInfix⟩
      · next hshort =>
        have hvalue := Nat.lt_of_lt_of_le (digitsValue_lt hdigits) (tenTo_le (Nat.not_lt.1 hshort))
        refine ⟨⟨?_, Nat.zero_le _⟩, hbehind⟩
        cases negative <;> simpa [Exact] using hvalue

/-! ## Values -/

section

variable {item : Text → Result Json}

theorem gives_items (hi : ∀ t, Gives depth (Fits depth) t (item t)) {read : List Json}
    (hread : ∀ v ∈ read, Fits depth v) (fuel : Nat) (t : Text) :
    Gives depth (Fits (depth + 1)) t (items item read fuel t) := by
  induction fuel generalizing read t with
  | zero => trivial
  | succ fuel ih =>
    rw [items]
    split
    · next stop hstop => exact (hi t).error hstop
    · next value rest hvalue =>
      obtain ⟨hvalue, hrest⟩ := (hi t).ok hvalue
      have hread : ∀ v ∈ value :: read, Fits depth v := List.forall_mem_cons.2 ⟨hvalue, hread⟩
      split
      · trivial
      · next c behind hbehind =>
        have hbehind := (suffix_of_skipSpace hbehind).trans hrest
        split_ifs
        · exact ⟨fits_array fun v hv => hread v (List.mem_reverse.1 hv), hbehind⟩
        · exact (ih hread (skipSpace behind)).of_suffix ((skipSpace_suffix behind).trans hbehind)
        · trivial

theorem gives_fieldName (t : Text) : Gives depth (fun _ => True) t (fieldName t) := by
  unfold fieldName
  split
  · trivial
  · next c t =>
    have hstring : Gives depth _ _ _ := gives_string (c :: t) [] 0 t
    split_ifs
    · split
      · next stop hstop => exact (hstring.error hstop).of_suffix (List.suffix_cons c t)
      · next name rest hname =>
        have hrest := (hstring.ok hname).2.trans (List.suffix_cons c t)
        split
        · trivial
        · next d behind hbehind =>
          have hbehind := (suffix_of_skipSpace hbehind).trans hrest
          split_ifs
          · exact ⟨trivial, (skipSpace_suffix behind).trans hbehind⟩
          · trivial
    · trivial

theorem gives_fields (hi : ∀ t, Gives depth (Fits depth) t (item t)) {read : Fields}
    (hread : ∀ f ∈ read, Fits depth f.2) (fuel : Nat) (t : Text) :
    Gives depth (Fits (depth + 1)) t (fields item read fuel t) := by
  induction fuel generalizing read t with
  | zero => trivial
  | succ fuel ih =>
    rw [fields]
    split
    · next stop hstop => exact (gives_fieldName t).error hstop
    · next name named hname =>
      have hgives : Gives depth _ _ _ := gives_fieldName t
      have hnamed := (hgives.ok hname).2
      split
      · next stop hstop => exact ((hi named).error hstop).of_suffix hnamed
      · next value rest hvalue =>
        obtain ⟨hvalue, hrest⟩ := (hi named).ok hvalue
        have hread : ∀ f ∈ (name, value) :: read, Fits depth f.2 :=
          List.forall_mem_cons.2 ⟨hvalue, hread⟩
        split
        · trivial
        · next c behind hbehind =>
          have hbehind := (suffix_of_skipSpace hbehind).trans (hrest.trans hnamed)
          split_ifs
          · refine ⟨fits_object (Fields.nodup_ofPairs _) fun f hf => ?_, hbehind⟩
            exact hread f (List.mem_reverse.1 (Fields.mem_ofPairs hf))
          · exact (ih hread (skipSpace behind)).of_suffix ((skipSpace_suffix behind).trans hbehind)
          · trivial

theorem gives_array (hi : ∀ t, Gives depth (Fits depth) t (item t)) (fuel : Nat) (t : Text) :
    Gives depth (Fits (depth + 1)) t (array item fuel t) := by
  unfold array
  split
  · trivial
  · next c rest h =>
    split_ifs
    · exact ⟨fits_array (by simp), suffix_of_skipSpace h⟩
    · exact (gives_items hi (by simp) fuel _).of_suffix (h ▸ skipSpace_suffix t)

theorem gives_object (hi : ∀ t, Gives depth (Fits depth) t (item t)) (fuel : Nat) (t : Text) :
    Gives depth (Fits (depth + 1)) t (object item fuel t) := by
  unfold object
  split
  · trivial
  · next c rest h =>
    split_ifs
    · exact ⟨fits_object List.nodup_nil (by simp), suffix_of_skipSpace h⟩
    · exact (gives_fields hi (by simp) fuel _).of_suffix (h ▸ skipSpace_suffix t)

end

theorem gives_value (fuel depth : Nat) (t : Text) : Gives depth (Fits depth) t (value fuel depth t) := by
  -- What an array or an object holds is read with less depth left; the rest holds nothing.
  induction depth using Nat.strongRecOn generalizing t with
  | ind depth ih =>
    unfold value
    split
    · trivial
    · next c t =>
      have htail : t <:+ c :: t := List.suffix_cons c t
      split_ifs
      · exact ((gives_string (c :: t) [] 0 t).map fun s _ => ⟨trivial, Nat.zero_le _⟩).of_suffix htail
      · next hc =>
        have hopens : opens c = true := by simp [opens, hc]
        cases depth with
        | zero => exact List.countP_pos_iff.2 ⟨c, List.mem_cons_self, hopens⟩
        | succ depth => exact (gives_array (ih depth (Nat.lt_succ_self _)) fuel t).of_opens hopens
      · next hc =>
        have hopens : opens c = true := by simp [opens, hc]
        cases depth with
        | zero => exact List.countP_pos_iff.2 ⟨c, List.mem_cons_self, hopens⟩
        | succ depth => exact (gives_object (ih depth (Nat.lt_succ_self _)) fuel t).of_opens hopens
      · split
        · next found hword => exact fits_word? hword
        · exact gives_number _ _ depth

end Reader

/-! ## Documents -/

theorem fits_ofUnmarked {document : Text} {v : Json} (h : ofUnmarked document = .ok v) :
    Fits nestingLimit v := by
  have hgives := Reader.gives_value document.length nestingLimit (Reader.skipSpace document)
  unfold ofUnmarked at h
  split at h
  · cases h
  · next value rest hvalue =>
    split at h
    · exact Except.ok.inj h ▸ (hgives.ok hvalue).1
    · cases h

/-- Why a text is refused: what it says, an integer of too many digits in it, or more opening brackets
than there may be levels. -/
def Refuses (document : Text) : Fault → Prop
  | .malformed _ => True
  | .number fault => Reader.TooLong document fault
  | .nested _ => nestingLimit < document.countP Reader.opens
  | .undecodable _ => False

theorem refuses_ofUnmarked {document : Text} {fault : Fault} (h : ofUnmarked document = .error fault) :
    Refuses document fault := by
  have hgives := Reader.gives_value document.length nestingLimit (Reader.skipSpace document)
  unfold ofUnmarked at h
  split at h
  · next stop hstop =>
    obtain rfl := Except.error.inj h
    have hstopped := (hgives.error (q := Fits nestingLimit) hstop).of_suffix
      (Reader.skipSpace_suffix document)
    cases stop with
    | problem => trivial
    | number | nested => exact hstopped
  · split at h
    · cases h
    · obtain rfl := Except.error.inj h
      trivial

theorem refuses_ofText {document : Text} {fault : Fault} (h : ofText document = .error fault) :
    Refuses document fault := by
  unfold ofText at h
  split at h
  · obtain rfl := Except.error.inj h
    trivial
  · exact refuses_ofUnmarked h

theorem ofUnmarked_tooLong {n : Int} (h : tenTo Integer.digitLimit ≤ n.natAbs) :
    ofUnmarked (Text.ofInt n) = .error (.number (.tooLong (Text.ofNat n.natAbs).length)) := by
  have hbegins := Reader.beginsNumber_ofInt n []
  have hnumber := Reader.number_tooLong h Reader.follows_nil.endsNumber (Text.ofInt n)
  rw [List.append_nil] at hbegins hnumber
  have hstart := Reader.skipSpace_of_startsPlain hbegins.beginsValue.startsPlain
  rw [ofUnmarked, hstart, Reader.value_of_beginsNumber hbegins, hnumber]
  rfl

theorem head_ofInt (n : Int) : (Text.ofInt n).head?.map CodePoint.val ≠ some 0xFEFF := by
  have hbegins := Reader.beginsNumber_ofInt n []
  rw [List.append_nil] at hbegins
  obtain ⟨c, t, ht, hc⟩ := hbegins
  rw [ht, List.head?_cons, Option.map_some, ne_eq, Option.some.injEq]
  rcases hc with hc | ⟨rfl, -⟩
  · simp only [CodePoint.isDigit, Bool.and_eq_true, decide_eq_true_eq] at hc
    omega
  · decide

theorem ofText_tooLong {n : Int} (h : tenTo Integer.digitLimit ≤ n.natAbs) :
    ofText (Text.ofInt n) = .error (.number (.tooLong (Text.ofNat n.natAbs).length)) := by
  rw [ofText, if_neg (head_ofInt n), ofUnmarked_tooLong h]

theorem fits_ofBytes {bytes : Bytes} {v : Json} (h : ofBytes bytes = .ok v) :
    Fits nestingLimit v := by
  unfold ofBytes at h
  split at h
  · exact fits_ofUnmarked h
  · exact nomatch h

end Json

end ThreatDesk
