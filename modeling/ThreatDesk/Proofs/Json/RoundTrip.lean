import ThreatDesk.Proofs.Json.Numbers
import ThreatDesk.Proofs.Json.Strings

/-!
# Documents read back

A value whose doubles are in their one form and whose objects hold no field twice is read back from its
document, if its nesting is within the limit (`ofUnmarked_toDocument`). The reader's laws are stated
in front of whatever follows a value, and are proved along the writer's own recursion.
-/

namespace ThreatDesk

namespace Json

mutual

/-- Whether a value is the one that its document stands for: integers have no more digits than can be
read, doubles are in their one form, and no object has two fields of one name. -/
def Exact : Json → Prop
  | .number (.integer n) => n.natAbs < tenTo Integer.digitLimit
  | .number (.real x) => x.IsCanonical
  | .array vs => ExactItems vs
  | .object fs => (fs.map Prod.fst).Nodup ∧ ExactFields fs
  | .null | .bool _ | .text _ => True

def ExactItems : List Json → Prop
  | [] => True
  | v :: vs => Exact v ∧ ExactItems vs

def ExactFields : List (Text × Json) → Prop
  | [] => True
  | (_, v) :: fs => Exact v ∧ ExactFields fs

end

namespace Fields

theorem put_of_not_mem {name : Text} (value : Json) {fields : Fields}
    (h : name ∉ fields.map Prod.fst) : put name value fields = fields ++ [(name, value)] := by
  induction fields with
  | nil => rfl
  | cons f fields ih =>
    obtain ⟨k, v⟩ := f
    simp only [List.map_cons, List.mem_cons, not_or] at h
    rw [put, if_neg (Ne.symm h.1), ih h.2]
    rfl

theorem foldl_put {pairs : Fields} (read : Fields) (h : ((read ++ pairs).map Prod.fst).Nodup) :
    pairs.foldl (fun fields (k, v) => put k v fields) read = read ++ pairs := by
  induction pairs generalizing read with
  | nil => simp
  | cons p pairs ih =>
    obtain ⟨k, v⟩ := p
    have hk : k ∉ read.map Prod.fst := by
      rw [List.map_append, List.nodup_append] at h
      intro hm
      exact h.2.2 k hm k (by simp) rfl
    rw [List.foldl_cons]
    simp only
    rw [put_of_not_mem v hk, ih _ (by simpa using h), List.append_assoc]
    rfl

theorem ofPairs_of_nodup {pairs : Fields} (h : (pairs.map Prod.fst).Nodup) :
    ofPairs pairs = pairs :=
  foldl_put [] h

end Fields

def Printer.Layout.document : Printer.Layout := ⟨false, true⟩

open Printer.Layout (document)

namespace Reader

/-! ## White space -/

def StartsPlain (t : Text) : Prop := ∀ c ∈ t.head?, isSpace c = false

theorem startsPlain_cons {c : CodePoint} (h : isSpace c = false) (t : Text) :
    StartsPlain (c :: t) := by
  intro d hd
  obtain rfl : c = d := Option.some.inj hd
  exact h

theorem skipSpace_of_startsPlain {t : Text} (h : StartsPlain t) : skipSpace t = t := by
  cases t with
  | nil => rfl
  | cons c t =>
    have hc := h c rfl
    rw [skipSpace, List.dropWhile_cons_of_neg (by simp [hc])]

theorem break_document (depth : Nat) :
    document.break depth = ('\n' : CodePoint) :: Text.replicate depth "  " := rfl

theorem isSpace_of_mem_break (depth : Nat) : ∀ c ∈ document.break depth, isSpace c = true := by
  rw [break_document]
  intro c hc
  rcases List.mem_cons.1 hc with rfl | hc
  · decide
  · obtain ⟨t, ht, hct⟩ := List.mem_flatten.1 hc
    rw [List.eq_of_mem_replicate ht] at hct
    have hall : ∀ c ∈ (("  " : String) : Text), isSpace c = true := by decide
    exact hall c hct

theorem skipSpace_break (depth : Nat) {rest : Text} (h : StartsPlain rest) :
    skipSpace (document.break depth ++ rest) = rest := by
  rw [skipSpace, List.dropWhile_append_of_pos (isSpace_of_mem_break depth)]
  exact skipSpace_of_startsPlain h

/-- What may follow a value in a document: nothing, a comma, or a line break. -/
def Follows (rest : Text) : Prop := ∀ c ∈ rest.head?, c = ',' ∨ c = '\n'

theorem follows_nil : Follows [] := by
  simp [Follows]

theorem follows_break (depth : Nat) (rest : Text) : Follows (document.break depth ++ rest) := by
  intro c hc
  exact Or.inr (Option.some.inj hc).symm

theorem Follows.endsNumber {rest : Text} (h : Follows rest) : EndsNumber rest := by
  intro c hc
  rcases h c hc with rfl | rfl <;> decide

theorem ascii_document : document.ascii = false := rfl

theorem comma_document (depth : Nat) :
    document.comma depth = (',' : CodePoint) :: document.break depth := rfl

theorem follows_items (depth : Nat) (vs : List Json) {rest : Text} (h : Follows rest) :
    Follows (Printer.items document depth vs rest) := by
  cases vs with
  | nil => exact h
  | cons v vs =>
    intro c hc
    rw [Printer.items, comma_document] at hc
    exact Or.inl (Option.some.inj hc).symm

theorem follows_fields (depth : Nat) (fs : List (Text × Json)) {rest : Text} (h : Follows rest) :
    Follows (Printer.fields document depth fs rest) := by
  cases fs with
  | nil => exact h
  | cons f fs =>
    obtain ⟨k, v⟩ := f
    intro c hc
    rw [Printer.fields, comma_document] at hc
    exact Or.inl (Option.some.inj hc).symm

/-! ## Beginnings -/

theorem head_ofNat (n : Nat) : ∃ c t, Text.ofNat n = c :: t ∧ c.isDigit = true := by
  cases ht : Text.ofNat n with
  | nil => exact absurd ht (Text.ofNat_ne_nil n)
  | cons c t => exact ⟨c, t, rfl, Text.isDigit_of_mem_ofNat n c (by rw [ht]; simp)⟩

def BeginsNumber (t : Text) : Prop :=
  ∃ c u, t = c :: u ∧ (c.isDigit = true ∨ c = '-' ∧ ∃ d v, u = d :: v ∧ d.isDigit = true)

theorem beginsNumber_ofInt (n : Int) (rest : Text) : BeginsNumber (Text.ofInt n ++ rest) := by
  cases n with
  | ofNat m =>
    obtain ⟨c, t, ht, hc⟩ := head_ofNat m
    exact ⟨c, t ++ rest, by rw [Text.ofInt, ht, List.cons_append], .inl hc⟩
  | negSucc m =>
    obtain ⟨c, t, ht, hc⟩ := head_ofNat (m + 1)
    refine ⟨'-', Text.ofNat (m + 1) ++ rest, rfl, .inr ⟨rfl, c, t ++ rest, ?_, hc⟩⟩
    rw [ht, List.cons_append]

theorem beginsNumber_toText {m : Nat} {e : Int} (hc : Binary64.Canonical m e) (s : Bool)
    (rest : Text) : BeginsNumber ((Binary64.finite s m e).toText ++ rest) := by
  obtain ⟨w, hw, htext, -⟩ := toText_finite hc s
  obtain ⟨c, t, hcons, hdigit⟩ : ∃ c t, w.text = c :: t ∧ c.isDigit = true := by
    cases hwhole : w.whole with
    | nil => exact absurd hwhole hw.whole_ne_nil
    | cons c t =>
      exact ⟨c, t ++ (pointed w.places ++ raised w.power?), by rw [Parts.text, hwhole]; rfl,
        hw.whole_digits c (hwhole ▸ List.mem_cons_self)⟩
  rw [htext, hcons]
  cases s with
  | false => exact ⟨c, t ++ rest, rfl, .inl hdigit⟩
  | true => exact ⟨'-', c :: (t ++ rest), rfl, .inr ⟨rfl, c, t ++ rest, rfl, hdigit⟩⟩

theorem word?_eq_none {t : Text} (h : ∀ w ∈ words, ∀ rest, t ≠ w.1 ++ rest) : word? t = none := by
  rw [word?, List.findSome?_eq_none_iff]
  rintro ⟨w, v⟩ hw
  simp only [Option.map_eq_none_iff]
  cases ha : Text.after? w t with
  | none => rfl
  | some rest => exact absurd (Text.after?_eq_some.1 ha) (h _ hw rest)

theorem head_word {w : Text × Json} (hw : w ∈ words) (rest : Text) :
    ∃ (c d : CodePoint) (t : Text), w.1 ++ rest = c :: d :: t ∧ c.isDigit = false ∧
      (c = '-' → d.isDigit = false) := by
  simp only [words, List.mem_cons, List.not_mem_nil, or_false] at hw
  rcases hw with rfl | rfl | rfl | rfl | rfl | rfl
  all_goals exact ⟨_, _, _, rfl, by decide, by decide⟩

theorem word?_of_beginsNumber {t : Text} (h : BeginsNumber t) : word? t = none := by
  apply word?_eq_none
  intro w hw rest he
  obtain ⟨c, d, u, hu, hc, hd⟩ := head_word hw rest
  obtain ⟨e, v, rfl, hnumber⟩ := h
  rw [hu] at he
  obtain ⟨rfl, rfl⟩ := List.cons.inj he
  rcases hnumber with hdigit | ⟨rfl, f, x, hx, hdigit⟩
  · rw [hc] at hdigit
    exact Bool.noConfusion hdigit
  · rw [← (List.cons.inj hx).1, hd rfl] at hdigit
    exact Bool.noConfusion hdigit

def BeginsValue (t : Text) : Prop := ∃ c u, t = c :: u ∧ isSpace c = false ∧ c ≠ ']'

theorem BeginsValue.startsPlain {t : Text} (h : BeginsValue t) : StartsPlain t := by
  obtain ⟨c, u, rfl, hc, -⟩ := h
  exact startsPlain_cons hc u

theorem isSpace_of_isDigit {c : CodePoint} (h : c.isDigit = true) :
    isSpace c = false ∧ c ≠ ']' := by
  have hne (d : CodePoint) (hd : d.isDigit = false) : c ≠ d := by
    rintro rfl
    rw [hd] at h
    exact Bool.noConfusion h
  simp only [isSpace, Bool.or_eq_false_iff, decide_eq_false_iff_not]
  exact ⟨⟨⟨⟨hne _ (by decide), hne _ (by decide)⟩, hne _ (by decide)⟩, hne _ (by decide)⟩,
    hne _ (by decide)⟩

theorem BeginsNumber.beginsValue {t : Text} (h : BeginsNumber t) : BeginsValue t := by
  obtain ⟨c, u, rfl, hc⟩ := h
  rcases hc with hc | ⟨rfl, -⟩
  · exact ⟨c, u, rfl, isSpace_of_isDigit hc⟩
  · exact ⟨_, u, rfl, by decide, by decide⟩

theorem beginsValue_value {v : Json} (h : Exact v) (depth : Nat) (rest : Text) :
    BeginsValue (Printer.value document depth v rest) := by
  match v with
  | .null => exact ⟨_, _, rfl, by decide, by decide⟩
  | .bool true => exact ⟨_, _, rfl, by decide, by decide⟩
  | .bool false => exact ⟨_, _, rfl, by decide, by decide⟩
  | .number (.integer n) => exact (beginsNumber_ofInt n rest).beginsValue
  | .number (.real .nan) => exact ⟨_, _, rfl, by decide, by decide⟩
  | .number (.real (.infinity true)) => exact ⟨_, _, rfl, by decide, by decide⟩
  | .number (.real (.infinity false)) => exact ⟨_, _, rfl, by decide, by decide⟩
  | .number (.real (.finite s _ _)) => exact (beginsNumber_toText h s rest).beginsValue
  | .text _ => exact ⟨_, _, rfl, by decide, by decide⟩
  | .array [] => exact ⟨_, _, rfl, by decide, by decide⟩
  | .array (_ :: _) => exact ⟨_, _, rfl, by decide, by decide⟩
  | .object [] => exact ⟨_, _, rfl, by decide, by decide⟩
  | .object ((_, _) :: _) => exact ⟨_, _, rfl, by decide, by decide⟩

/-! ## Lengths -/

theorem length_value (l : Printer.Layout) (depth : Nat) (v : Json) (rest : Text) :
    (Printer.value l depth v rest).length = (Printer.value l depth v []).length + rest.length := by
  rw [← List.length_append, Printer.value_append, List.nil_append]

theorem length_le_value (l : Printer.Layout) (depth : Nat) (v : Json) (rest : Text) :
    rest.length ≤ (Printer.value l depth v rest).length := by
  rw [length_value]
  omega

theorem length_items (depth : Nat) (vs : List Json) (rest : Text) :
    vs.length ≤ (Printer.items document depth vs rest).length := by
  induction vs with
  | nil => exact Nat.zero_le _
  | cons v vs ih =>
    have hv := length_le_value document depth v (Printer.items document depth vs rest)
    rw [Printer.items, comma_document, List.length_append, List.length_cons, List.length_cons]
    omega

theorem length_fields (depth : Nat) (fs : List (Text × Json)) (rest : Text) :
    fs.length ≤ (Printer.fields document depth fs rest).length := by
  induction fs with
  | nil => exact Nat.zero_le _
  | cons f fs ih =>
    obtain ⟨k, v⟩ := f
    have hv := length_le_value document depth v (Printer.fields document depth fs rest)
    rw [Printer.fields, comma_document]
    simp only [List.length_append, List.length_cons]
    omega

/-! ## Values -/

theorem fieldName_string (name : Text) {rest : Text} (h : StartsPlain rest) :
    fieldName (Printer.string false name ++ (": " ++ rest)) = .ok (name, rest) := by
  obtain ⟨inner, hi, hs⟩ :=
    string_string (Printer.string false name ++ (": " ++ rest)) name (": " ++ rest)
  rw [hi] at hs ⊢
  have hc : skipSpace (": " ++ rest) = (':' : CodePoint) :: (' ' : CodePoint) :: rest :=
    skipSpace_of_startsPlain (startsPlain_cons (by decide) _)
  have hsp : skipSpace ((' ' : CodePoint) :: rest) = rest := by
    rw [skipSpace, List.dropWhile_cons_of_pos (by decide)]
    exact skipSpace_of_startsPlain h
  have hq : string (('"' : CodePoint) :: inner) [] 0 inner = .ok (name, ": " ++ rest) := hs
  rw [fieldName, if_pos rfl]
  simp only [hq, hc, if_pos, hsp]

theorem skipSpace_comma (d : Nat) (rest : Text) :
    skipSpace (document.comma d ++ rest) = (',' : CodePoint) :: (document.break d ++ rest) :=
  skipSpace_of_startsPlain (startsPlain_cons (by decide) _)

theorem value_plain (fuel depth : Nat) {c : CodePoint} (hq : c ≠ '"') (ha : c ≠ '[') (ho : c ≠ '{')
    (t : Text) :
    value fuel depth (c :: t) =
      match word? (c :: t) with
      | some found => .ok found
      | none => number (c :: t) (c :: t) := by
  unfold value
  exact (if_neg hq).trans ((if_neg ha).trans (if_neg ho))

theorem value_of_beginsNumber {t : Text} (h : BeginsNumber t) (fuel depth : Nat) :
    value fuel depth t = number t t := by
  have hw := word?_of_beginsNumber h
  obtain ⟨c, u, rfl, hc⟩ := h
  have hne (d : CodePoint) (hd : d.isDigit = false) (hs : d ≠ '-') : c ≠ d := by
    rintro rfl
    rcases hc with hc | ⟨rfl, -⟩
    · rw [hd] at hc
      exact Bool.noConfusion hc
    · exact hs rfl
  rw [value_plain fuel depth (hne _ (by decide) (by decide)) (hne _ (by decide) (by decide))
    (hne _ (by decide) (by decide))]
  simp only [hw]

theorem value_number {n : Number} (h : Exact (.number n)) (fuel depth : Nat) {rest : Text}
    (hr : EndsNumber rest) :
    value fuel depth (Printer.number n ++ rest) = .ok (.number n, rest) := by
  match n with
  | .integer n =>
    exact (value_of_beginsNumber (beginsNumber_ofInt n rest) fuel depth).trans
      (number_ofInt h hr _)
  | .real .nan | .real (.infinity true) | .real (.infinity false) =>
    exact value_plain fuel depth (by decide) (by decide) (by decide) _
  | .real (.finite s _ _) =>
    exact (value_of_beginsNumber (beginsNumber_toText h s rest) fuel depth).trans
      (number_toText h s hr _)

theorem value_string (t : Text) (fuel depth : Nat) (rest : Text) :
    value fuel depth (Printer.string false t ++ rest) = .ok (.text t, rest) := by
  obtain ⟨inner, hi, hs⟩ := string_string (Printer.string false t ++ rest) t rest
  rw [hi] at hs ⊢
  have hq : string (('"' : CodePoint) :: inner) [] 0 inner = .ok (t, rest) := hs
  unfold value
  simp only [if_pos, hq]
  rfl

theorem value_array (fuel depth : Nat) (t : Text) :
    value fuel (depth + 1) (('[' : CodePoint) :: t) = array (value fuel depth) fuel t := by
  rw [value, if_neg (by decide), if_pos rfl]

theorem value_object (fuel depth : Nat) (t : Text) :
    value fuel (depth + 1) (('{' : CodePoint) :: t) = object (value fuel depth) fuel t := by
  rw [value, if_neg (by decide), if_neg (by decide), if_pos rfl]

theorem array_of_begins (item : Text → Result Json) (fuel d : Nat) {t : Text} (h : BeginsValue t) :
    array item fuel (document.break d ++ t) = items item [] fuel t := by
  have hs := h.startsPlain
  obtain ⟨c, u, rfl, -, hc⟩ := h
  rw [array, skipSpace_break d hs]
  simp only [if_neg hc]

theorem object_of_string (item : Text → Result Json) (fuel d : Nat) (name rest : Text) :
    object item fuel (document.break d ++ (Printer.string false name ++ rest)) =
      fields item [] fuel (Printer.string false name ++ rest) := by
  obtain ⟨inner, hi, -⟩ := string_string [] name rest
  rw [hi, object, skipSpace_break d (startsPlain_cons (by decide) _)]
  simp only [if_neg (by decide : ¬ CodePoint.ofChar '"' = CodePoint.ofChar '}')]

mutual

theorem value_value (v : Json) (hv : Exact v) {fuel depth : Nat} (d : Nat) {rest : Text}
    (hn : nesting v ≤ depth) (hf : (Printer.value document d v rest).length ≤ fuel)
    (hr : Follows rest) :
    value fuel depth (Printer.value document d v rest) = .ok (v, rest) := by
  match v with
  | .null | .bool true | .bool false =>
    exact value_plain fuel depth (by decide) (by decide) (by decide) _
  | .number n => exact value_number hv fuel depth hr.endsNumber
  | .text t => exact value_string t fuel depth rest
  | .array [] =>
    match depth with
    | 0 => exact absurd hn (by simp [nesting])
    | depth + 1 => exact value_array fuel depth _
  | .array (w :: vs) =>
    match depth with
    | 0 => exact absurd hn (by simp [nesting])
    | depth + 1 =>
      obtain ⟨hw, hvs⟩ := hv
      have hn : max (nesting w) (nestingItems vs) ≤ depth := Nat.le_of_succ_le_succ hn
      have hs : skipSpace (document.break d ++ ("]" ++ rest)) = (']' : CodePoint) :: rest :=
        skipSpace_break d (startsPlain_cons (by decide) rest)
      have hfl := follows_break d ("]" ++ rest)
      rw [Printer.value] at hf ⊢
      generalize document.break d ++ ("]" ++ rest) = close at hs hfl hf ⊢
      have hlen := length_le_value document (d + 1) w (Printer.items document (d + 1) vs close)
      have hle := length_items (d + 1) vs close
      have hopen : (("[" : String) : Text).length = 1 := rfl
      simp only [List.length_append] at hf
      have hread := value_value w hw (d + 1) (Nat.le_trans (Nat.le_max_left _ _) hn)
        (by omega : _ ≤ fuel) (follows_items (d + 1) vs hfl)
      have hpos : 1 ≤ fuel := by omega
      have hitems := items_items vs hvs hs hfl (Nat.le_trans (Nat.le_max_right _ _) hn)
        (by omega : _ ≤ fuel) (by omega : vs.length ≤ fuel - 1) [] hread
      rw [Nat.sub_add_cancel hpos] at hitems
      refine (value_array fuel depth (document.break (d + 1) ++ _)).trans ?_
      rw [array_of_begins _ _ _ (beginsValue_value hw _ _)]
      exact hitems
  | .object [] =>
    match depth with
    | 0 => exact absurd hn (by simp [nesting])
    | depth + 1 => exact value_object fuel depth _
  | .object ((k, w) :: fs) =>
    match depth with
    | 0 => exact absurd hn (by simp [nesting])
    | depth + 1 =>
      obtain ⟨hnodup, hw, hfs⟩ := hv
      have hn : max (nesting w) (nestingFields fs) ≤ depth := Nat.le_of_succ_le_succ hn
      have hs : skipSpace (document.break d ++ ("\x7d" ++ rest)) = ('}' : CodePoint) :: rest :=
        skipSpace_break d (startsPlain_cons (by decide) rest)
      have hfl := follows_break d ("\x7d" ++ rest)
      rw [Printer.value, ascii_document] at hf ⊢
      generalize document.break d ++ ("\x7d" ++ rest) = close at hs hfl hf ⊢
      have hlen := length_le_value document (d + 1) w (Printer.fields document (d + 1) fs close)
      have hle := length_fields (d + 1) fs close
      have hopen : (("\x7b" : String) : Text).length = 1 := rfl
      simp only [List.length_append] at hf
      have hread := value_value w hw (d + 1) (Nat.le_trans (Nat.le_max_left _ _) hn)
        (by omega : _ ≤ fuel) (follows_fields (d + 1) fs hfl)
      have hname := fieldName_string k
        (beginsValue_value hw (d + 1) (Printer.fields document (d + 1) fs close)).startsPlain
      have hpos : 1 ≤ fuel := by omega
      have hfields := fields_fields fs hfs hs hfl (Nat.le_trans (Nat.le_max_right _ _) hn)
        (by omega : _ ≤ fuel) (by omega : fs.length ≤ fuel - 1) [] hname hread
      rw [Nat.sub_add_cancel hpos] at hfields
      refine (value_object fuel depth (document.break (d + 1) ++ _)).trans ?_
      rw [object_of_string, hfields, List.reverse_nil, List.nil_append,
        Fields.ofPairs_of_nodup hnodup]

theorem items_items (vs : List Json) (hv : ExactItems vs) {fuel depth d f : Nat}
    {close rest t : Text} (hs : skipSpace close = (']' : CodePoint) :: rest) (hfl : Follows close)
    (hn : nestingItems vs ≤ depth) (hf : (Printer.items document d vs close).length ≤ fuel)
    (hlen : vs.length ≤ f) {w : Json} (read : List Json)
    (hw : value fuel depth t = .ok (w, Printer.items document d vs close)) :
    items (value fuel depth) read (f + 1) t = .ok (.array (read.reverse ++ w :: vs), rest) := by
  match vs, f with
  | [], f =>
    rw [Printer.items] at hw
    rw [items]
    simp only [hw, hs, if_pos]
    simp
  | u :: us, 0 => simp at hlen
  | u :: us, f + 1 =>
    obtain ⟨hu, hus⟩ := hv
    rw [Printer.items] at hw hf
    rw [List.length_append] at hf
    have hbegin := beginsValue_value hu d (Printer.items document d us close)
    have hread : value fuel depth (Printer.value document d u (Printer.items document d us close)) =
        .ok (u, Printer.items document d us close) :=
      value_value u hu d (Nat.le_trans (Nat.le_max_left _ _) hn) (by omega)
        (follows_items d us hfl)
    have hle := length_le_value document d u (Printer.items document d us close)
    have hrec := items_items us hus hs hfl (Nat.le_trans (Nat.le_max_right _ _) hn) (by omega)
      (Nat.le_of_succ_le_succ hlen) (w :: read) hread
    rw [items]
    simp only [hw, skipSpace_comma, skipSpace_break d hbegin.startsPlain, hrec, if_pos,
      if_neg (by decide : ¬ CodePoint.ofChar ',' = CodePoint.ofChar ']')]
    simp

/-- The fields behind the first one, when that has been read. -/
theorem fields_fields (fs : List (Text × Json)) (hv : ExactFields fs) {fuel depth d f : Nat}
    {close rest t u : Text} (hs : skipSpace close = ('}' : CodePoint) :: rest)
    (hfl : Follows close) (hn : nestingFields fs ≤ depth)
    (hf : (Printer.fields document d fs close).length ≤ fuel) (hlen : fs.length ≤ f) {k : Text}
    {w : Json} (read : Fields) (hk : fieldName t = .ok (k, u))
    (hw : value fuel depth u = .ok (w, Printer.fields document d fs close)) :
    fields (value fuel depth) read (f + 1) t =
      .ok (.object (Fields.ofPairs (read.reverse ++ (k, w) :: fs)), rest) := by
  match fs, f with
  | [], f =>
    rw [Printer.fields] at hw
    rw [fields]
    simp only [hk, hw, hs, if_pos]
    simp
  | _ :: _, 0 => simp at hlen
  | (l, v) :: gs, f + 1 =>
    obtain ⟨hv, hgs⟩ := hv
    rw [Printer.fields, ascii_document] at hw hf
    simp only [List.length_append] at hf
    have hbegin := beginsValue_value hv d (Printer.fields document d gs close)
    have hname := fieldName_string l hbegin.startsPlain
    have hread :
        value fuel depth (Printer.value document d v (Printer.fields document d gs close)) =
          .ok (v, Printer.fields document d gs close) :=
      value_value v hv d (Nat.le_trans (Nat.le_max_left _ _) hn) (by omega)
        (follows_fields d gs hfl)
    have hle := length_le_value document d v (Printer.fields document d gs close)
    have hrec := fields_fields gs hgs hs hfl (Nat.le_trans (Nat.le_max_right _ _) hn) (by omega)
      (Nat.le_of_succ_le_succ hlen) ((k, w) :: read) hname hread
    have hplain : StartsPlain (Printer.string false l ++ (": " ++
        Printer.value document d v (Printer.fields document d gs close))) :=
      startsPlain_cons (by decide) _
    rw [fields]
    simp only [hk, hw, skipSpace_comma, skipSpace_break d hplain, hrec, if_pos,
      if_neg (by decide : ¬ CodePoint.ofChar ',' = CodePoint.ofChar '}')]
    simp

end

end Reader

/-! ## Documents -/

theorem ofUnmarked_toDocument {v : Json} (hv : Exact v) (hn : v.nesting ≤ nestingLimit) :
    ofUnmarked v.toDocument = .ok v := by
  have hread : Reader.value v.toDocument.length nestingLimit v.toDocument = .ok (v, []) :=
    Reader.value_value v hv 0 hn (Nat.le_refl _) Reader.follows_nil
  have hs : Reader.skipSpace v.toDocument = v.toDocument :=
    Reader.skipSpace_of_startsPlain (Reader.beginsValue_value hv 0 []).startsPlain
  rw [ofUnmarked, hs]
  simp only [hread]
  rfl

end Json

end ThreatDesk
