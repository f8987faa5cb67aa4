import Mathlib
import SearchQuery.Document.Decode
import SearchQuery.Document.Encode
import SearchQuery.Proofs.Fields
import SearchQuery.Proofs.JsonText

namespace SearchQuery

open Json

variable {α : Type} {ms : List (String × Json)} {value : α → Json} {value? : Json → Option α}

namespace Json

theorem mapM_map_eq_some {β : Type} {f : β → Option α} {g : α → β} (h : ∀ x, f (g x) = some x)
    (xs : List α) : (xs.map g).mapM f = some xs := by
  induction xs
  case nil => rfl
  case cons x xs hi => simp [h, hi]

@[simp]
theorem text?_text (s : String) : (text s).text? = some s :=
  Literal.text?_ofText s

@[simp]
theorem members?_record : (record ms).members? = some ms :=
  mapM_map_eq_some (by simp) ms

theorem record?_record : (record ms).record? names =
    if names.all fun name => ms.countP (·.1 = name) ≤ 1 then
      some (names.map (List.lookup · ms))
    else
      none := by
  have h : (record ms).members? = some ms := members?_record
  rw [record] at h
  simp [record?, record, h]

@[simp]
theorem case?_record : (record [m]).case? = some m := by
  simp [case?]

theorem optional?_map (hn : value? .null = none) (h : ∀ v, value? (value v) = some v)
    (v : Option α) : optional? value? (v.map value) = some v := by
  cases v
  case none => rfl
  case some v =>
    have hv := h v
    rw [Option.map_some]
    cases hj : value v <;> simp_all [optional?]

theorem list?_array (h : ∀ v, value? (value v) = some v) (vs : List α) :
    list? value? (.array (vs.map value)) = some vs :=
  mapM_map_eq_some h vs

theorem wellFormed_text (s : String) : WellFormed (text s) :=
  .string (Literal.valid_ofText s)

theorem wellFormed_nat (n : Nat) : WellFormed (nat n) := by
  have hd : (toString n).toList = Nat.toDigits 10 n := by simp
  refine .number (hd ▸ isNumber_toDigits n) fun c hc => ?_
  exact isNumberChar_of_isDigit <| Nat.isDigit_of_mem_toDigits (by decide) (by decide) (hd ▸ hc)

theorem wellFormed_record (h : ∀ m ∈ ms, WellFormed m.2) : WellFormed (record ms) := by
  apply WellFormed.object
  all_goals simp only [List.forall_mem_map]
  · exact fun m _ => Literal.valid_ofText m.1
  · exact h

theorem wellFormed_array (h : ∀ v, WellFormed (value v)) (vs : List α) :
    WellFormed (.array (vs.map value)) := by
  apply WellFormed.array
  simp only [List.forall_mem_map]
  exact fun v _ => h v

theorem wellFormed_optionalMember (h : ∀ v, WellFormed (value v)) (v : Option α) :
    ∀ m ∈ optionalMember name value v, WellFormed m.2 := by
  cases v <;> simp [optionalMember, h]

end Json

namespace Fields

theorem ofList_entries (fs : Fields α) : ofList fs.entries = fs := by
  apply ext_get?
  intro name
  rw [get?_ofList, lookup_reverse fs.sorted]
  rfl

theorem fields?_encode (h : ∀ v, value? (value v) = some v) (fs : Fields α) :
    fields? value? (fs.encode value) = some fs := by
  rw [fields?, encode, members?_record, Option.bind_eq_bind, Option.bind_some, mapM_map_eq_some]
  · simp [ofList_entries]
  · simp [h]

theorem wellFormed_encode (h : ∀ v, WellFormed (value v)) (fs : Fields α) :
    WellFormed (fs.encode value) := by
  apply wellFormed_record
  simp only [List.forall_mem_map]
  exact fun e _ => h e.2

end Fields

@[simp]
theorem DefaultOperator.decode?_text (op : DefaultOperator) :
    decode? (.text op.text) = some op := by
  cases op <;> simp [decode?, text] <;> rfl

namespace QueryString

@[simp]
theorem decode?_encode (q : QueryString) : decode? q.encode = some q := by
  simp [decode?, encode, record?_record, List.lookup, required?]

theorem wellFormed_encode (q : QueryString) : q.encode.WellFormed := by
  simp [encode, wellFormed_record, wellFormed_text]

end QueryString

namespace Clause

@[simp]
theorem decode?_encode (c : Clause) : decode? c.encode = some c := by
  cases c
  case term fields =>
    simp [decode?, encode, Fields.fields?_encode text?_text]
  case terms fields =>
    simp [decode?, encode, Fields.fields?_encode (list?_array text?_text)]
  case type value => simp [decode?, encode, decodeType?, record?_record, List.lookup, required?]
  case nested path query =>
    simp [decode?, encode, decodeNested?, record?_record, List.lookup, required?]

theorem wellFormed_encode (c : Clause) : c.encode.WellFormed := by
  cases c
  case term fields =>
    simp [encode, wellFormed_record, Fields.wellFormed_encode wellFormed_text]
  case terms fields =>
    simp [encode, wellFormed_record, Fields.wellFormed_encode (wellFormed_array wellFormed_text)]
  case type value => simp [encode, wellFormed_record, wellFormed_text]
  case nested path query =>
    simp [encode, wellFormed_record, wellFormed_text, query.wellFormed_encode]

end Clause

namespace Facet

theorem decodeTerms?_encodeTerms (f : Facet) :
    decodeTerms? f.encodeTerms = some (f.field, f.size) := by
  have hs := nat?_nat f.size.toNat_lt_size
  simp [decodeTerms?, encodeTerms, record?_record, List.lookup, required?, hs]

theorem decodeFilter?_record (q : QueryString) :
    decodeFilter? (record [("query", q.encode)]) = some q := by
  simp [decodeFilter?, record?_record, List.lookup, required?]

theorem record?_encode (f : Facet) :
    f.encode.record? ["nested", "terms", "facet_filter"] = some [
      f.nested.map Json.text,
      some f.encodeTerms,
      f.filter.map fun q => record [("query", q.encode)]
    ] := by
  rw [encode, record?_record]
  cases f.nested <;> cases f.filter <;> simp [optionalMember, List.lookup]

theorem decode?_encode (f : Facet) : decode? f.encode = some f := by
  have hn := optional?_map rfl text?_text f.nested
  have hf := optional?_map rfl decodeFilter?_record f.filter
  simp [decode?, record?_encode, required?, decodeTerms?_encodeTerms, hn, hf]

theorem wellFormed_encode (f : Facet) : f.encode.WellFormed := by
  have ht : f.encodeTerms.WellFormed := by
    simp [encodeTerms, wellFormed_record, wellFormed_text, wellFormed_nat]
  apply wellFormed_record
  simp only [List.forall_mem_append, List.forall_mem_singleton]
  refine ⟨⟨wellFormed_optionalMember wellFormed_text _, ht⟩, wellFormed_optionalMember ?_ _⟩
  exact fun q => wellFormed_record (by simp [q.wellFormed_encode])

end Facet

namespace Document

-- The filter, with the query string for the free text.
def encodeFiltered (d : Document) : Json :=
  record <| [("filter", d.encodeFilter)] ++ optionalMember "query" QueryString.encode d.text

theorem encode_eq (d : Document) :
    d.encode = record (
      [("query", record [("filtered", d.encodeFiltered)])] ++
        optionalMember "facets" (Fields.encode Facet.encode) d.facets) :=
  rfl

theorem decodeLists?_record (must should mustNot : List Clause) :
    decodeLists? (record [
      ("must", .array (must.map Clause.encode)),
      ("should", .array (should.map Clause.encode)),
      ("must_not", .array (mustNot.map Clause.encode))
    ]) = some (must, should, mustNot) := by
  simp [decodeLists?, decodeLists?.clauses?, orElse?, record?_record, List.lookup,
    list?_array Clause.decode?_encode]

theorem record?_encodeFiltered (d : Document) :
    d.encodeFiltered.record? ["filter", "query"] =
      some [some d.encodeFilter, d.text.map QueryString.encode] := by
  rw [encodeFiltered, record?_record]
  cases d.text <;> simp [optionalMember, List.lookup]

theorem record?_encode (d : Document) :
    d.encode.record? ["query", "facets"] = some [
      some <| record [("filtered", d.encodeFiltered)],
      d.facets.map (Fields.encode Facet.encode)
    ] := by
  rw [encode_eq, record?_record]
  cases d.facets <;> simp [optionalMember, List.lookup]

theorem decode?_encode (d : Document) : decode? d.encode = some d := by
  have hl := decodeLists?_record d.must d.should d.mustNot
  have ht := optional?_map rfl QueryString.decode?_encode d.text
  have hf := optional?_map rfl (Fields.fields?_encode Facet.decode?_encode) d.facets
  simp [decode?, record?_encode, record?_record, record?_encodeFiltered, encodeFilter, List.lookup,
    required?, hl, ht, hf]

theorem wellFormed_encodeFilter (d : Document) : d.encodeFilter.WellFormed := by
  have h := wellFormed_array Clause.wellFormed_encode
  simp [encodeFilter, wellFormed_record, h]

theorem wellFormed_encodeFiltered (d : Document) : d.encodeFiltered.WellFormed := by
  apply wellFormed_record
  rw [List.forall_mem_append, List.forall_mem_singleton]
  exact ⟨d.wellFormed_encodeFilter, wellFormed_optionalMember QueryString.wellFormed_encode _⟩

theorem wellFormed_encode (d : Document) : d.encode.WellFormed := by
  rw [encode_eq]
  apply wellFormed_record
  rw [List.forall_mem_append, List.forall_mem_singleton]
  constructor
  · simp [wellFormed_record, d.wellFormed_encodeFiltered]
  · exact wellFormed_optionalMember (Fields.wellFormed_encode Facet.wellFormed_encode) _

-- Nothing of a document is lost in its text, and the two layouts differ in white space only.
theorem round_trip (d : Document) :
    (read? d.encode.compact).bind decode? = some d ∧
      (read? d.encode.pretty).bind decode? = some d ∧
      String.ofList (withoutSpace d.encode.pretty.toList) = d.encode.compact := by
  have h := d.wellFormed_encode
  have hc := read?_render Layout.blank_compact h
  have hp := read?_render Layout.blank_pretty h
  rw [compact, pretty, hc, hp]
  exact ⟨d.decode?_encode, d.decode?_encode, withoutSpace_render Layout.blank_pretty h⟩

end Document

end SearchQuery
