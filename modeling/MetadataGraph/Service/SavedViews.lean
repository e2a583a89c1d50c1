import MetadataGraph.Service.Adoption
import MetadataGraph.Session.Op

namespace MetadataGraph.Service

open MetadataGraph.Graph MetadataGraph.Agents ObjectHeap Runs

section Rules

/-- The items of a list. -/
def listed : Json → List Json
  | .arr items => items
  | _ => []

/-- The annotations of a document, unless its `annotations` is something that no loop can run over. -/
def documentAnnotations (value : Json) : Except Json (List (Dict Json)) :=
  match readObject value with
  | none => .ok []
  | some document => match iterated ((document.get "annotations").orElse (.arr [])) with
    | none => .error (document.get "annotations")
    | some items => .ok (items.filterMap readObject)

/-- `iter_saved_view_annotations`. -/
def iterSavedViewAnnotations (metadata : Json) : Except Json (List (Dict Json)) :=
  match readObject metadata with
  | none => .ok []
  | some fields => (documentAnnotations (fields.get "annotation_document")).map
      (· ++ (listed (fields.get "annotations")).filterMap readObject)

def savedViewAnnotationError (metadata : Json) : Except Json (Option String) :=
  (iterSavedViewAnnotations metadata).map fun annotations =>
    annotations.findSome? fun annotation => imageAnnotationError annotation none

/-- The image of an annotation without its url, where it has one that is not embedded. -/
def strippedImage ( annotation : Dict Json) : Option Json :=
  if annotationTypeOf annotation = some "image" then match annotation.get "image" with
    | .obj entries =>
      let url := (Json.obj entries).field "url"
      if url = .null || isEmbeddedImageUrl url then none else some (.obj ((Dict.of entries).erase "url").toList)
    | _ => none
  else none

/-- `_sanitize_saved_view_annotation` of an item that is a mapping. -/
def sanitizeSavedViewAnnotation (item : Json) : Json :=
  match readObject item with
  | none => item
  | some annotation => match strippedImage annotation with
    | none => item
    | some image => .obj ( annotation.insert "image" image).toList

/-- The sanitized list, where it differs. -/
def cleanedList : Json → Option Json
  | .arr items =>
    let cleaned := items.map sanitizeSavedViewAnnotation
    if cleaned = items then none else some (.arr cleaned)
  | _ => none

/-- The sanitized document, where it differs. -/
def cleanedDocument (value : Json) : Option Json :=
  (readObject value).bind fun document => (cleanedList (document.get "annotations")).map fun cleaned =>
    .obj (document.insert "annotations" cleaned).toList

/-- The field with its new value, if there is one. -/
def replaced (key : String) (value : Option Json) (fields : Dict Json) : Dict Json :=
  match value with
  | none => fields
  | some value => fields.insert key value

def sanitizeSavedViewMetadata (metadata : Json) : Json :=
  match readObject metadata with
  | none => metadata
  | some fields =>
    let document := cleanedDocument (fields.get "annotation_document")
    let legacy := cleanedList (fields.get "annotations")
    if document = none ∧ legacy = none then metadata
    else .obj (replaced "annotations" legacy (replaced "annotation_document" document fields)).toList

end Rules

section Cleaning

@[simp] theorem readObject_toList (d : Dict Json) : readObject (.obj d.toList) = some d :=
  congrArg some (Dict.of_toList d)

theorem annotationTypeOf_insert ( annotation : Dict Json) (image : Json) :
    annotationTypeOf ( annotation.insert "image" image) = annotationTypeOf annotation := by
  rw [annotationTypeOf, annotationTypeOf, Dict.get_insert, Dict.get_insert, if_neg (by decide), if_neg (by decide)]

/-- An image that has lost its url. -/
theorem field_url_erase (entries : List (String × Json)) :
    (Json.obj ((Dict.of entries).erase "url").toList).field "url" = .null := by
  rw [field_toList, Dict.get_erase, if_pos rfl]

theorem strippedImage_insert { annotation : Dict Json} {image : Json} (stripped : strippedImage annotation = some image) :
    strippedImage ( annotation.insert "image" image) = none := by
  rw [strippedImage] at stripped
  split at stripped
  · rename_i typed
    split at stripped
    · rename_i entries _
      dsimp only at stripped
      split at stripped
      · cases stripped
      · cases stripped
        rw [strippedImage, annotationTypeOf_insert, if_pos typed, Dict.get_insert, if_pos rfl]
        dsimp only
        rw [field_url_erase, if_pos (by rfl)]
    · cases stripped
  · cases stripped

theorem sanitize_of_unread {item : Json} (unread : readObject item = none) : sanitizeSavedViewAnnotation item = item := by
  rw [ sanitizeSavedViewAnnotation, unread]

theorem sanitize_of_read {item : Json} { annotation : Dict Json} (read : readObject item = some annotation) :
    sanitizeSavedViewAnnotation item = match strippedImage annotation with
      | none => item
      | some image => .obj ( annotation.insert "image" image).toList := by
  rw [ sanitizeSavedViewAnnotation, read]

theorem sanitizeSavedViewAnnotation_idem (item : Json) :
    sanitizeSavedViewAnnotation ( sanitizeSavedViewAnnotation item) = sanitizeSavedViewAnnotation item := by
  cases read : readObject item with
  | none => rw [sanitize_of_unread read, sanitize_of_unread read]
  | some annotation =>
    rw [sanitize_of_read read]
    cases stripped : strippedImage annotation with
    | none => rw [sanitize_of_read read, stripped]
    | some image => rw [sanitize_of_read (readObject_toList _), strippedImage_insert stripped]

/-- A cleaned list has nothing left to clean. -/
theorem cleanedList_of_cleaned {value cleaned : Json} (done : cleanedList value = some cleaned) :
    cleanedList cleaned = none ∧ ∃ items, value = .arr items ∧ cleaned = .arr (items.map sanitizeSavedViewAnnotation) := by
  cases value with
  | arr items =>
    rw [cleanedList] at done
    split at done
    · cases done
    · cases done
      refine ⟨?_, items, rfl, rfl⟩
      rw [cleanedList, List.map_map]
      refine if_pos (List.map_congr_left fun item _ => ?_)
      exact sanitizeSavedViewAnnotation_idem item
  | _ => cases done

theorem cleanedDocument_of_cleaned {value cleaned : Json} (done : cleanedDocument value = some cleaned) :
    cleanedDocument cleaned = none ∧ ∃ document items, readObject value = some document ∧
      cleanedList (document.get "annotations") = some items ∧ cleaned = .obj (document.insert "annotations" items).toList := by
  obtain ⟨document, read, inner⟩ := Option.bind_eq_some_iff.mp done
  obtain ⟨items, list, rfl⟩ := Option.map_eq_some_iff.mp inner
  refine ⟨?_, document, items, read, list, rfl⟩
  rw [cleanedDocument, readObject_toList, Option.bind_some, Dict.get_insert, if_pos rfl, (cleanedList_of_cleaned list).1]
  rfl

/-- What the sanitizer makes of the two fields. -/
theorem get_replaced (fields : Dict Json) (document legacy : Option Json) :
    (replaced "annotations" legacy (replaced "annotation_document" document fields)).get "annotation_document" =
        document.getD (fields.get "annotation_document") ∧
      (replaced "annotations" legacy (replaced "annotation_document" document fields)).get "annotations" =
        legacy.getD (fields.get "annotations") := by
  cases document <;> cases legacy <;> simp [replaced, Dict.get_insert]

theorem sanitize_of_fields {metadata : Json} {fields : Dict Json} (read : readObject metadata = some fields) :
    ∃ after, readObject (sanitizeSavedViewMetadata metadata) = some after ∧
      after.get "annotation_document" =
        (cleanedDocument (fields.get "annotation_document")).getD (fields.get "annotation_document") ∧
      after.get "annotations" = (cleanedList (fields.get "annotations")).getD (fields.get "annotations") ∧
      (cleanedDocument (fields.get "annotation_document") = none → cleanedList (fields.get "annotations") = none →
        sanitizeSavedViewMetadata metadata = metadata) := by
  rw [sanitizeSavedViewMetadata, read]
  dsimp only
  split
  · rename_i none
    refine ⟨fields, read, ?_, ?_, fun _ _ => rfl⟩
    · rw [none.1, Option.getD_none]
    · rw [none.2, Option.getD_none]
  · rename_i some
    obtain ⟨document, legacy⟩ := get_replaced fields (cleanedDocument (fields.get "annotation_document"))
      (cleanedList (fields.get "annotations"))
    exact ⟨_, readObject_toList _, document, legacy, fun first second => absurd ⟨first, second⟩ some⟩

theorem sanitizeSavedViewMetadata_idem (metadata : Json) :
    sanitizeSavedViewMetadata (sanitizeSavedViewMetadata metadata) = sanitizeSavedViewMetadata metadata := by
  cases read : readObject metadata with
  | none =>
    have same : sanitizeSavedViewMetadata metadata = metadata := by rw [sanitizeSavedViewMetadata, read]
    rw [same, same]
  | some fields =>
    obtain ⟨after, readAfter, document, legacy, _⟩ := sanitize_of_fields read
    obtain ⟨_, _, _, _, kept⟩ := sanitize_of_fields readAfter
    refine kept ?_ ?_
    · rw [document]
      cases done : cleanedDocument (fields.get "annotation_document") with
      | none => exact done
      | some cleaned => exact (cleanedDocument_of_cleaned done).1
    · rw [legacy]
      cases done : cleanedList (fields.get "annotations") with
      | none => exact done
      | some cleaned => exact (cleanedList_of_cleaned done).1

end Cleaning

section Stripping

/-- The rule objects to the annotation, and its image has lost its url; or it is as it was. -/
def AnnotationStripped (item after : Json) : Prop :=
  after = item ∨ ∃ annotation entries error, readObject item = some annotation ∧
    imageAnnotationError annotation none = some error ∧ annotation.get "image" = .obj entries ∧
      after = .obj ( annotation.insert "image" (.obj ((Dict.of entries).erase "url").toList)).toList

def ListStripped (value after : Json) : Prop :=
  after = value ∨ ∃ items rest, value = .arr items ∧ after = .arr rest ∧ List.Forall₂ AnnotationStripped items rest

/-- Only the two lists of annotations differ. -/
structure FieldsStripped (fields after : Dict Json) : Prop where
  document : after.get "annotation_document" = fields.get "annotation_document" ∨
    ∃ document cleaned, readObject (fields.get "annotation_document") = some document ∧
      ListStripped (document.get "annotations") cleaned ∧
        after.get "annotation_document" = .obj (document.insert "annotations" cleaned).toList
  legacy : ListStripped (fields.get "annotations") (after.get "annotations")
  others : ∀ key, key ≠ "annotation_document" → key ≠ "annotations" → after[key]? = fields[key]?

def OnlyStripped (metadata after : Json) : Prop :=
  after = metadata ∨ ∃ fields rest, readObject metadata = some fields ∧ after = .obj rest.toList ∧ FieldsStripped fields rest

theorem annotationStripped_sanitize (item : Json) : AnnotationStripped item ( sanitizeSavedViewAnnotation item) := by
  cases read : readObject item with
  | none => exact .inl (sanitize_of_unread read)
  | some annotation =>
    rw [sanitize_of_read read]
    cases stripped : strippedImage annotation with
    | none => exact .inl rfl
    | some image =>
      rw [strippedImage] at stripped
      split at stripped
      · rename_i typed
        split at stripped
        · rename_i entries shown
          dsimp only at stripped
          split at stripped
          · cases stripped
          · rename_i remote
            cases stripped
            refine .inr ⟨ annotation, entries, unembeddedImageMessage, read, ?_, shown, rfl⟩
            rw [imageAnnotationError, if_neg (not_not.mpr typed), shown]
            dsimp only
            rw [if_neg remote]
        · cases stripped
      · cases stripped

theorem listStripped_cleaned (value : Json) : ListStripped value ((cleanedList value).getD value) := by
  cases done : cleanedList value with
  | none => exact .inl rfl
  | some cleaned =>
    obtain ⟨_, items, rfl, rfl⟩ := cleanedList_of_cleaned done
    exact .inr ⟨items, _, rfl, rfl, List.forall₂_map_right_iff.mpr (List.forall₂_same.mpr fun item _ =>
      annotationStripped_sanitize item)⟩

theorem onlyStripped_sanitize (metadata : Json) : OnlyStripped metadata (sanitizeSavedViewMetadata metadata) := by
  rw [sanitizeSavedViewMetadata]
  split
  · exact .inl rfl
  · rename_i fields read
    dsimp only
    split
    · exact .inl rfl
    · obtain ⟨document, legacy⟩ := get_replaced fields (cleanedDocument (fields.get "annotation_document"))
        (cleanedList (fields.get "annotations"))
      refine .inr ⟨fields, _, read, rfl, ?_, ?_, fun key other apart => ?_⟩
      · rw [document]
        cases done : cleanedDocument (fields.get "annotation_document") with
        | none => exact .inl rfl
        | some cleaned =>
          obtain ⟨_, inner, items, readInner, list, rfl⟩ := cleanedDocument_of_cleaned done
          have stripped := listStripped_cleaned (inner.get "annotations")
          rw [list] at stripped
          exact .inr ⟨inner, items, readInner, stripped, rfl⟩
      · rw [legacy]
        exact listStripped_cleaned _
      · have first : ∀ (value : Option Json) (d : Dict Json), (replaced "annotations" value d)[key]? = d[key]? := by
          intro value d
          cases value with
          | none => rfl
          | some value => rw [replaced, Std.ExtTreeMap.getElem?_insert, if_neg (by simpa using Ne.symm apart)]
        have second : ∀ (value : Option Json) (d : Dict Json), (replaced "annotation_document" value d)[key]? = d[key]? := by
          intro value d
          cases value with
          | none => rfl
          | some value => rw [replaced, Std.ExtTreeMap.getElem?_insert, if_neg (by simpa using Ne.symm other)]
        rw [first, second]

end Stripping

section Passing

/-- A mapping without the url of an image that is not embedded. -/
def sanitized ( annotation : Dict Json) : Dict Json := replaced "image" (strippedImage annotation) annotation

theorem mappings_sanitize (items : List Json) :
    (items.map sanitizeSavedViewAnnotation).filterMap readObject = (items.filterMap readObject).map sanitized := by
  induction items with
  | nil => rfl
  | cons item items ih =>
    rw [List.map_cons]
    cases read : readObject item with
    | none =>
      rw [List.filterMap_cons_none (by rw [sanitize_of_unread read]; exact read), List.filterMap_cons_none read, ih]
    | some annotation =>
      have after : readObject ( sanitizeSavedViewAnnotation item) = some (sanitized annotation) := by
        rw [sanitize_of_read read, sanitized]
        cases strippedImage annotation with
        | none => exact read
        | some image => exact readObject_toList _
      rw [List.filterMap_cons_some after, List.filterMap_cons_some read, ih, List.map_cons]

theorem mappings_of_cleanedList_none {value : Json} (clean : cleanedList value = none) :
    (listed value).filterMap readObject = ((listed value).filterMap readObject).map sanitized := by
  cases value with
  | arr items =>
    rw [cleanedList] at clean
    split at clean
    · rename_i same
      rw [listed, ← mappings_sanitize, same]
    · cases clean
  | _ => rfl

theorem mappings_listed (value : Json) : (listed ((cleanedList value).getD value)).filterMap readObject =
    ((listed value).filterMap readObject).map sanitized := by
  cases done : cleanedList value with
  | none => exact mappings_of_cleanedList_none done
  | some cleaned =>
    obtain ⟨_, items, rfl, rfl⟩ := cleanedList_of_cleaned done
    exact mappings_sanitize items

/-- A loop over what is no list meets no mapping. -/
theorem mappings_iterated {value : Json} {items : List Json} (iterable : iterated (value.orElse (.arr [])) = some items) :
    items.filterMap readObject = (listed value).filterMap readObject := by
  rw [Json.orElse] at iterable
  split at iterable
  · cases value with
    | arr inner =>
      cases iterable
      rfl
    | str text =>
      cases iterable
      refine List.filterMap_eq_nil_iff.mpr fun item member => ?_
      obtain ⟨_, _, rfl⟩ := List.mem_map.mp member
      rfl
    | obj entries =>
      cases iterable
      refine List.filterMap_eq_nil_iff.mpr fun item member => ?_
      obtain ⟨_, _, rfl⟩ := List.mem_map.mp member
      rfl
    | _ => cases iterable
  · rename_i falsy
    cases iterable
    cases value with
    | arr inner => rw [listed, of_not_not fun full => falsy (decide_eq_true full)]
    | _ => rfl

theorem documentAnnotations_cleaned (value : Json) : documentAnnotations ((cleanedDocument value).getD value) =
    (documentAnnotations value).map (List.map sanitized) := by
  cases read : readObject value with
  | none =>
    have unchanged : cleanedDocument value = none := by rw [cleanedDocument, read, Option.bind_none]
    rw [unchanged, Option.getD_none, documentAnnotations, read]
    rfl
  | some document =>
    cases done : cleanedList (document.get "annotations") with
    | none =>
      have unchanged : cleanedDocument value = none := by rw [cleanedDocument, read, Option.bind_some, done]; rfl
      rw [unchanged, Option.getD_none, documentAnnotations, read]
      dsimp only
      cases iterable : iterated ((document.get "annotations").orElse (.arr [])) with
      | none => rfl
      | some items =>
        dsimp only [Except.map]
        rw [mappings_iterated iterable]
        exact congrArg Except.ok (mappings_of_cleanedList_none done)
    | some cleaned =>
      have changed : cleanedDocument value = some (.obj (document.insert "annotations" cleaned).toList) := by
        rw [cleanedDocument, read, Option.bind_some, done]
        rfl
      obtain ⟨_, items, isList, rfl⟩ := cleanedList_of_cleaned done
      have whole : ∀ l : List Json, iterated ((Json.arr l).orElse (.arr [])) = some l := fun l => by
        cases l <;> rfl
      rw [changed, Option.getD_some, documentAnnotations, readObject_toList, documentAnnotations, read]
      dsimp only
      rw [Dict.get_insert, if_pos rfl, isList, whole, whole]
      exact congrArg Except.ok (mappings_sanitize items)

/-- The annotations of the sanitized metadata are the sanitized annotations. -/
theorem iterSavedViewAnnotations_sanitize (metadata : Json) :
    iterSavedViewAnnotations (sanitizeSavedViewMetadata metadata) =
      (iterSavedViewAnnotations metadata).map (List.map sanitized) := by
  cases read : readObject metadata with
  | none =>
    have same : sanitizeSavedViewMetadata metadata = metadata := by rw [sanitizeSavedViewMetadata, read]
    rw [same, iterSavedViewAnnotations, read]
    rfl
  | some fields =>
    obtain ⟨after, readAfter, document, legacy, _⟩ := sanitize_of_fields read
    rw [iterSavedViewAnnotations, readAfter, iterSavedViewAnnotations, read]
    dsimp only
    rw [document, legacy, documentAnnotations_cleaned, mappings_listed]
    cases documentAnnotations (fields.get "annotation_document") with
    | error value => rfl
    | ok annotations =>
      dsimp only [Except.map]
      rw [List.map_append]

/-- The rule has nothing against an annotation of another kind, nor against an image without a payload or
with an embedded one. -/
theorem imageAnnotationError_sanitized_iff ( annotation : Dict Json) :
    imageAnnotationError (sanitized annotation) none = none ↔
      (annotationTypeOf annotation = some "image" →
        annotation.get "image" = .null ∨ ( annotation.get "image").isObject = true) := by
  have typed : annotationTypeOf (sanitized annotation) = annotationTypeOf annotation := by
    rw [sanitized]
    cases strippedImage annotation with
    | none => rfl
    | some image => exact annotationTypeOf_insert annotation image
  by_cases image : annotationTypeOf annotation = some "image"
  · rw [imageAnnotationError, typed, if_neg (not_not.mpr image), sanitized, strippedImage, if_pos image]
    cases shown : annotation.get "image" with
    | null => simp [replaced, shown]
    | obj entries =>
      dsimp only
      refine iff_of_true ?_ fun _ => .inr rfl
      by_cases fine : ((Json.obj entries).field "url" = .null || isEmbeddedImageUrl ((Json.obj entries).field "url")) = true
      · rw [if_pos fine, replaced, shown]
        dsimp only
        rw [if_pos fine]
      · rw [if_neg fine, replaced, Dict.get_insert, if_pos rfl]
        dsimp only
        rw [field_url_erase, if_pos (by rfl)]
    | _ => simp [replaced, shown, Json.isObject, image]
  · rw [imageAnnotationError, typed, if_pos image]
    exact iff_of_true rfl fun no => absurd no image

theorem savedViewAnnotationError_eq_none {metadata : Json} : savedViewAnnotationError metadata = .ok none ↔
    ∃ annotations, iterSavedViewAnnotations metadata = .ok annotations ∧
      ∀ annotation ∈ annotations, imageAnnotationError annotation none = none := by
  rw [savedViewAnnotationError]
  cases iterSavedViewAnnotations metadata with
  | error value => exact ⟨fun no => (by cases no), fun found => found.elim fun _ no => (by cases no.1)⟩
  | ok annotations =>
    simp only [Except.map, Except.ok.injEq, List.findSome?_eq_none_iff, exists_eq_left']

/-- A loop can run over the annotations of the document, and the images are mappings or null. -/
def Legible (metadata : Json) : Prop :=
  ∃ annotations, iterSavedViewAnnotations metadata = .ok annotations ∧
    ∀ annotation ∈ annotations, annotationTypeOf annotation = some "image" →
      annotation.get "image" = .null ∨ ( annotation.get "image").isObject = true

theorem passes_sanitize_iff (metadata : Json) :
    savedViewAnnotationError (sanitizeSavedViewMetadata metadata) = .ok none ↔ Legible metadata := by
  rw [savedViewAnnotationError_eq_none, Legible, iterSavedViewAnnotations_sanitize]
  cases iterSavedViewAnnotations metadata with
  | error value =>
    exact ⟨fun found => found.elim fun _ no => (by cases no.1), fun found => found.elim fun _ no => (by cases no.1)⟩
  | ok annotations =>
    simp only [Except.map, Except.ok.injEq, exists_eq_left', List.forall_mem_map, imageAnnotationError_sanitized_iff]

end Passing

section Writes

/-- The check that a write of a saved view goes through. -/
def checkedAnnotations (text : Raised → String) (metadata : Dict Json) : Option String :=
  match savedViewAnnotationError (.obj metadata.toList) with
  | .ok error => error
  | .error value => some (text (.badValue value))

/-- The service with the check of the code. -/
def checked (cfg : ServiceConfig) : ServiceConfig := { cfg with savedViewAnnotationError := checkedAnnotations cfg.text }

/-- No annotation in the metadata points at a remote image. -/
def Embedded (metadata : Dict Json) : Prop := savedViewAnnotationError (.obj metadata.toList) = .ok none

theorem embedded_of_checked {cfg : ServiceConfig} {metadata : Dict Json}
    (passed : (checked cfg).savedViewAnnotationError metadata = none) : Embedded metadata := by
  have passed' : checkedAnnotations cfg.text metadata = none := passed
  rw [checkedAnnotations] at passed'
  split at passed'
  · rename_i error given
    rw [Embedded, given, passed']
  · cases passed'

def IsSavedView (node : Node) : Prop := node.typeStr ∈ ServiceConfig.savedViewNodeTypes

/-- The check has nothing against the annotations of a document. -/
def DocumentFine (value : Json) : Prop :=
  ∃ annotations, documentAnnotations value = .ok annotations ∧
    ∀ annotation ∈ annotations, imageAnnotationError annotation none = none

def ListFine (value : Json) : Prop :=
  ∀ annotation ∈ (listed value).filterMap readObject, imageAnnotationError annotation none = none

theorem embedded_iff {metadata : Dict Json} :
    Embedded metadata ↔ DocumentFine (metadata.get "annotation_document") ∧ ListFine (metadata.get "annotations") := by
  rw [Embedded, savedViewAnnotationError_eq_none, iterSavedViewAnnotations, readObject_toList, DocumentFine]
  dsimp only
  generalize documentAnnotations (metadata.get "annotation_document") = read
  cases read with
  | error value =>
    constructor
    · rintro ⟨_, no, _⟩
      cases no
    · rintro ⟨⟨_, no, _⟩, _⟩
      cases no
  | ok annotations =>
    constructor
    · rintro ⟨_, same, fine⟩
      cases same
      exact ⟨⟨annotations, rfl, fun annotation member => fine annotation (List.mem_append_left _ member)⟩,
        fun annotation member => fine annotation (List.mem_append_right _ member)⟩
    · rintro ⟨⟨_, same, fine⟩, legacy⟩
      cases same
      refine ⟨_, rfl, fun annotation member => ?_⟩
      rcases List.mem_append.mp member with first | second
      · exact fine annotation first
      · exact legacy annotation second

theorem documentFine_null : DocumentFine .null := ⟨[], rfl, fun _ none => absurd none List.not_mem_nil⟩

theorem listFine_null : ListFine .null := fun _ none => absurd none List.not_mem_nil

theorem embedded_empty : Embedded {} := embedded_iff.mpr ⟨documentFine_null, listFine_null⟩

/-- Metadata whose fields come from harmless metadata, or are gone, is harmless. -/
theorem Embedded.of_get {first second metadata : Dict Json} (one : Embedded first) (other : Embedded second)
    (each : ∀ key, metadata.get key = .null ∨ metadata.get key = first.get key ∨ metadata.get key = second.get key) :
    Embedded metadata := by
  rw [embedded_iff] at one other ⊢
  constructor
  · rcases each "annotation_document" with same | same | same <;> rw [same]
    · exact documentFine_null
    · exact one.1
    · exact other.1
  · rcases each "annotations" with same | same | same <;> rw [same]
    · exact listFine_null
    · exact one.2
    · exact other.2

theorem Embedded.union {first second : Dict Json} (one : Embedded first) (other : Embedded second) :
    Embedded (first ∪ second) := by
  refine one.of_get other fun key => ?_
  rw [Dict.get_union]
  split
  · exact .inr (.inr rfl)
  · exact .inr (.inl rfl)

theorem Embedded.patch {base patch : Dict Json} (one : Embedded base) (other : Embedded patch) :
    Embedded (Storage.applyMetadataPatch base patch) := by
  refine one.of_get other fun key => ?_
  have union := Dict.get_union base patch key
  rw [Dict.get] at union
  rw [Storage.applyMetadataPatch, Dict.get, Std.ExtTreeMap.getElem?_filter']
  cases found : (base ∪ patch)[key]? with
  | none => exact .inl rfl
  | some value =>
    rw [found, Option.getD_some] at union
    rw [Option.filter_some]
    split
    · rw [Option.getD_some, union]
      split
      · exact .inr (.inr rfl)
      · exact .inr (.inl rfl)
    · exact .inl rfl

/-- The metadata that an update folds in without a check: its keys outside of the model, and what `dict()` makes
of a metadata that is no mapping. -/
structure Covered (cfg : StorageConfig) (merge : Bool) (updates : Dict Json) : Prop where
  folded : Embedded (updates.filter fun key _ => key ∉ Storage.allowedNodeFields && key ∉ Storage.reservedNodeFields)
  coerced : merge = false → ∀ value fields, updates["metadata"]? = some value → value.isObject = false →
    cfg.coerceDict value = some fields → Embedded fields

theorem embedded_toDict {cfg : StorageConfig} {value : Json} {fields : Dict Json}
    (made : Storage.toDict cfg value = some fields) (mapping : ∀ entries, value = .obj entries → Embedded (.of entries))
    (other : value.isObject = false → ∀ fields, cfg.coerceDict value = some fields → Embedded fields) : Embedded fields := by
  rw [Storage.toDict, Json.orElse] at made
  by_cases full : value.truthy = true
  · rw [if_pos full] at made
    cases value with
    | obj entries =>
      cases made
      exact mapping entries rfl
    | _ => exact other rfl fields made
  · rw [if_neg full] at made
    cases made
    exact embedded_empty

/-- What the candidate of an update gets as its metadata is harmless. -/
theorem embedded_metadata {cfg : StorageConfig} {node : Node} {request : Storage.NodeUpdate} {value : Json}
    {metadata : Dict Json} (before : Embedded node.metadata)
    (checked : ∀ entries, request.updates["metadata"]? = some (.obj entries) → Embedded (.of entries))
    (covered : Covered cfg request.metadataMerge request.updates)
    (changed : request.metadata cfg node = .ok (some value)) (read : readObject value = some metadata) :
    Embedded metadata := by
  rw [Storage.NodeUpdate.metadata] at changed
  split at changed
  · split at changed
    · cases changed
      rw [readObject_toList] at read
      cases read
      exact before.patch covered.folded
    · rename_i given present
      split at changed
      · rename_i entries mapping
        cases changed
        rw [readObject_toList] at read
        cases read
        refine (before.patch ?_).patch covered.folded
        rw [Json.orElse] at mapping
        split at mapping
        · subst mapping
          exact checked entries present
        · cases mapping
          exact embedded_empty
      · cases changed
  · rename_i plain
    split at changed
    · have same : request.updates["metadata"]? = some value := Except.ok.inj changed
      cases value with
      | obj entries =>
        cases read
        exact checked entries same
      | _ => cases read
    · dsimp only at changed
      split at changed
      · cases changed
      · rename_i fields made
        cases changed
        rw [readObject_toList] at read
        cases read
        refine Embedded.union ?_ covered.folded
        cases present : request.updates["metadata"]? with
        | none =>
          rw [present, Option.getD_none] at made
          refine embedded_toDict made (fun entries same => ?_) fun no => (by cases no)
          cases same
          rw [Dict.of_toList]
          exact before
        | some given =>
          rw [present, Option.getD_some] at made
          refine embedded_toDict made (fun entries same => ?_) fun apart fields coerced => ?_
          · rw [same] at present
            exact checked entries present
          · exact covered.coerced (Bool.eq_false_iff.mpr plain) given fields present apart coerced

theorem candidate_of_validated {cfg : StorageConfig} {node validated : Node} {request : Storage.NodeUpdate}
    (accepted : request.validated cfg node = .ok validated) : ∃ candidate, request.candidate cfg node = .ok candidate ∧
      Node.fromDict cfg.readers ⟨node.id, request.now⟩ candidate = some validated := by
  rw [Storage.NodeUpdate.validated] at accepted
  cases guarded : request.guard cfg node with
  | error error =>
    rw [guarded] at accepted
    cases accepted
  | ok =>
    rw [guarded] at accepted
    cases built : request.candidate cfg node with
    | error error =>
      rw [built] at accepted
      cases accepted
    | ok candidate =>
      rw [built] at accepted
      dsimp only [bind, Except.bind] at accepted
      split at accepted
      · cases accepted
      · rename_i read
        cases accepted
        exact ⟨candidate, rfl, read⟩

/-- The candidate has the metadata of the node, or what the update puts in its place. -/
theorem metadata_of_candidate {cfg : StorageConfig} {node : Node} {request : Storage.NodeUpdate} {candidate : Dict Json}
    (built : request.candidate cfg node = .ok candidate) :
    (request.metadata cfg node = .ok none ∧ candidate["metadata"]? = some (.obj node.metadata.toList)) ∨
      ∃ value, request.metadata cfg node = .ok (some value) ∧ candidate["metadata"]? = some value := by
  rw [Storage.NodeUpdate.candidate] at built
  cases changed : request.metadata cfg node with
  | error error =>
    rw [changed] at built
    cases built
  | ok value =>
    rw [changed] at built
    cases value with
    | none =>
      cases built
      refine .inl ⟨rfl, ?_⟩
      have own : node.toDict["metadata"]? = some (.obj node.metadata.toList) :=
        Dict.getElem?_of (by simp [Node.entries]) (by simp [Node.entries])
      rw [Std.ExtTreeMap.getElem?_union, Std.ExtTreeMap.getElem?_filter', own]
      cases request.updates["metadata"]? <;> rfl
    | some value =>
      cases built
      exact .inr ⟨value, rfl, Std.ExtTreeMap.getElem?_insert_self⟩

/-- What is validated for an update of a saved view is harmless. -/
theorem embedded_validated {cfg : StorageConfig} {node validated : Node} {request : Storage.NodeUpdate}
    (before : Embedded node.metadata)
    (checked : ∀ entries, request.updates["metadata"]? = some (.obj entries) → Embedded (.of entries))
    (covered : Covered cfg request.metadataMerge request.updates)
    (accepted : request.validated cfg node = .ok validated) : Embedded validated.metadata := by
  obtain ⟨candidate, built, made⟩ := candidate_of_validated accepted
  have given := Storage.metadata_fromDict made
  rcases metadata_of_candidate built with ⟨_, same⟩ | ⟨value, changed, same⟩
  · rcases Storage.fieldOr_eq given with ⟨absent, _⟩ | ⟨value, present, read⟩
    · rw [same] at absent
      cases absent
    · rw [same] at present
      cases present
      rw [readObject_toList] at read
      rw [← Option.some.inj read]
      exact before
  · rcases Storage.fieldOr_eq given with ⟨absent, _⟩ | ⟨other, present, read⟩
    · rw [same] at absent
      cases absent
    · rw [same] at present
      cases present
      exact embedded_metadata before checked covered changed read

variable {cfg : ServiceConfig} {t : Texts} {σ σ₀ : Storage}

/-- A call of a write path: when, in which federation and under which decision. -/
structure WriteCall where
  moment : Moment
  federation : Option Federated
  decision : GraphAuthorizationDecision
  call : Mutation

/-- The calls that write the metadata of nodes. -/
def writeStep (cfg : ServiceConfig) (t : Texts) (σ : Storage) (write : WriteCall) : Option (Storage × Except Raised Json) :=
  match write.call with
  | .addNodes _ _ | .updateNode _ _ _ _ | .adoptFederatedNode _ =>
    some (mutate cfg write.moment t write.federation write.decision write.call σ)
  | _ => none

/-- An update of a saved view folds in nothing that the check would refuse. -/
def FoldsEmbedded (cfg : StorageConfig) (σ : Storage) (write : WriteCall) : Prop :=
  ∀ id node entries merge expected, write.call = .updateNode (.str id) (.obj entries) merge expected →
    σ.stored id = some node → IsSavedView node → Covered cfg merge.truthy (.of entries)

/-- The saved views that were added since a state, or passed the check in it, pass it. -/
def Shielded (σ₀ σ : Storage) : Prop :=
  ∀ id node, σ.stored id = some node → IsSavedView node →
    (∀ old, σ₀.stored id = some old → Embedded old.metadata) → Embedded node.metadata

/-- What a write leaves stored: nodes as they were, harmless ones, and nodes that stay harmless. -/
def Shields (σ τ : Storage) : Prop :=
  ∀ id node, τ.stored id = some node → IsSavedView node → Embedded node.metadata ∨
    ∃ old, σ.stored id = some old ∧ IsSavedView old ∧ (Embedded old.metadata → Embedded node.metadata)

theorem Shields.refl (σ : Storage) : Shields σ σ := fun _ node here view => .inr ⟨node, here, view, id⟩

theorem Shielded.next {τ : Storage} (shielded : Shielded σ₀ σ) (shields : Shields σ τ) : Shielded σ₀ τ := by
  intro id node here view before
  rcases shields id node here view with fine | ⟨old, there, viewOld, stays⟩
  · exact fine
  · exact stays (shielded id old there viewOld before)

/-- What `add_nodes` is given is stored or not. -/
theorem shields_addNodes (valid : σ.Valid cfg.storage) {nodes : List Node} (edges : List Edge)
    (fine : ∀ node ∈ nodes, IsSavedView node → Embedded node.metadata) (encoded : Option (List (List ℚ))) :
    Shields σ ((ServiceConfig.allocate nodes edges σ).1.addNodes cfg.storage (ServiceConfig.allocate nodes edges σ).2.1
      (ServiceConfig.allocate nodes edges σ).2.2 encoded).1 := by
  have unused := unused_allocate valid nodes edges
  have objects : (ServiceConfig.allocate nodes edges σ).2.1.map (ServiceConfig.allocate nodes edges σ).1.node = nodes :=
    Heap.map_read_allocAll σ.nodeObjects nodes
  intro id node here view
  rcases Storage.addNodes_origin encoded unused.edgesInside unused.distinct unused.nodes here with
    before | ⟨ref, member, embedding, rfl⟩
  · rw [stored_allocate valid.toIndexed nodes edges id] at before
    exact .inr ⟨node, before, view, fun fine => fine⟩
  · have given : (ServiceConfig.allocate nodes edges σ).1.node ref ∈
        (ServiceConfig.allocate nodes edges σ).2.1.map (ServiceConfig.allocate nodes edges σ).1.node :=
      List.mem_map_of_mem member
    rw [objects] at given
    exact .inl (fine ((ServiceConfig.allocate nodes edges σ).1.node ref) given view)

theorem exists_of_forall₂ {α β : Type} {R : α → β → Prop} {l : List α} {k : List β} (related : List.Forall₂ R l k) {b : β}
    (member : b ∈ k) : ∃ a ∈ l, R a b := by
  induction related with
  | nil => cases member
  | cons first _ ih =>
    rcases List.mem_cons.mp member with rfl | later
    · exact ⟨_, .head _, first⟩
    · obtain ⟨a, inside, here⟩ := ih later
      exact ⟨a, .tail _ inside, here⟩

theorem embedded_readNode {fresh : Fresh} {value : Json} {node : Node}
    (read : (checked cfg).readNode fresh value = .ok node) (view : IsSavedView node) : Embedded node.metadata := by
  unfold ServiceConfig.readNode at read
  split at read
  · cases read
  · rename_i fields _
    cases built : (checked cfg).node fresh fields with
    | error error =>
      rw [built] at read
      cases read
    | ok made =>
      rw [built] at read
      dsimp only [bind, Except.bind] at read
      split at read
      · split at read
        · cases read
        · rename_i passed
          cases read
          exact embedded_of_checked passed
      · rename_i other
        cases read
        exact absurd view other

theorem embedded_readObjects {moment : Moment} {nodes edges : Json} {nodeObjects : List Node} {edgeObjects : List Edge}
    (read : (checked cfg).readObjects moment nodes edges = .ok (nodeObjects, edgeObjects)) :
    ∀ node ∈ nodeObjects, IsSavedView node → Embedded node.metadata := by
  rw [ServiceConfig.readObjects] at read
  dsimp only [bind, Except.bind] at read
  split at read
  · rename_i values _
    split at read
    · cases read
    · rename_i objects each
      have made : objects = nodeObjects := by
        split at read
        · split at read
          · cases read
          · cases read
            rfl
        · cases read
      subst made
      intro node member view
      obtain ⟨_, _, built⟩ := exists_of_forall₂ (Federation.mapM_eq_ok.mp each) member
      exact embedded_readNode built view
  · cases read

/-- The update that the storage is asked for is the one of the call. -/
theorem updateStored_request (cfg : ServiceConfig) (moment : Moment) (ref : Ref) (updates metadataMerge expected : Json)
    (σ : Storage) : (cfg.updateStored moment ref updates metadataMerge expected σ).1 = σ ∨
      ∃ entries request, updates = .obj entries ∧ request.updates = .of entries ∧
        request.metadataMerge = metadataMerge.truthy ∧
          (cfg.updateStored moment ref updates metadataMerge expected σ).1 =
            (σ.updateNode cfg.storage (σ.node ref).id request).1 := by
  have guarded : ∀ guard, (cfg.updateGuarded moment ref updates metadataMerge expected guard σ).1 = σ ∨
      ∃ entries request, updates = .obj entries ∧ request.updates = .of entries ∧
        request.metadataMerge = metadataMerge.truthy ∧
          (cfg.updateGuarded moment ref updates metadataMerge expected guard σ).1 =
            (σ.updateNode cfg.storage (σ.node ref).id request).1 := by
    intro guard
    cases updates with
    | obj entries =>
      let request : Storage.NodeUpdate :=
        { updates := .of entries, metadataMerge := metadataMerge.truthy, expectedUpdatedAt := guard.map .inl, now := moment.now
          encoded := moment.encoded.bind List.head? }
      refine .inr ⟨entries, request, rfl, rfl, rfl, ?_⟩
      rw [ServiceConfig.updateGuarded]
      dsimp only
      split <;> rename_i done <;> exact (congrArg Prod.fst done).symm
    | _ =>
      refine .inl ?_
      rw [ServiceConfig.updateGuarded]
      · dsimp only
        split <;> rfl
      · intro entries no
        cases no
  cases expected with
  | null => exact guarded none
  | str text => exact guarded (some text)
  | _ => exact .inl rfl

/-- What a call of `update_node` asks the storage for: the update of a stored node, where the metadata of a saved
view has passed the check. -/
structure Asks (cfg : ServiceConfig) (σ : Storage) (nodeId updates metadataMerge : Json) (id : String) (ref : Ref)
    (entries : List (String × Json)) (request : Storage.NodeUpdate) : Prop where
  named : nodeId = .str id
  found : σ.nodes.get? id = some ref
  given : updates = .obj entries
  updates : request.updates = .of entries
  merge : request.metadataMerge = metadataMerge.truthy
  passed : IsSavedView (σ.node ref) → ∀ metadata, (Dict.of entries)["metadata"]? = some (.obj metadata) →
    cfg.savedViewAnnotationError (.of metadata) = none

theorem updateNode_asks (cfg : ServiceConfig) (moment : Moment) (nodeId updates metadataMerge expected : Json) (σ : Storage) :
    (cfg.updateNode moment nodeId updates metadataMerge expected σ).1 = σ ∨
      ∃ id ref entries request, Asks cfg σ nodeId updates metadataMerge id ref entries request ∧
        (cfg.updateNode moment nodeId updates metadataMerge expected σ).1 =
          (σ.updateNode cfg.storage (σ.node ref).id request).1 := by
  rw [ServiceConfig.updateNode]
  split
  · split
    · exact .inl rfl
    · rename_i target found
      split
      · exact .inl rfl
      · rename_i seen
        split
        · exact .inl rfl
        · rename_i object
          obtain ⟨id, named, held⟩ : ∃ id, nodeId = .str id ∧ σ.nodes.get? id = some object := by
            rw [ServiceConfig.getNode] at found
            split at found
            · obtain ⟨id, named, there⟩ := Option.bind_eq_some_iff.mp (Except.ok.inj found)
              exact ⟨id, Json.string?_eq_some.mp named, there⟩
            · cases found
          have asked : (∀ entries, updates = .obj entries → IsSavedView (σ.node object) →
              ∀ metadata, (Dict.of entries)["metadata"]? = some (.obj metadata) →
                cfg.savedViewAnnotationError (.of metadata) = none) →
              (cfg.updateStored moment object updates metadataMerge expected σ).1 = σ ∨
                ∃ id ref entries request, Asks cfg σ nodeId updates metadataMerge id ref entries request ∧
                  (cfg.updateStored moment object updates metadataMerge expected σ).1 =
                    (σ.updateNode cfg.storage (σ.node ref).id request).1 := fun passed => by
            rcases updateStored_request cfg moment object updates metadataMerge expected σ with
              same | ⟨entries, request, given, updated, merge, same⟩
            · exact .inl same
            · exact .inr ⟨id, object, entries, request, ⟨named, held, given, updated, merge, passed entries given⟩, same⟩
          split
          · split
            · rename_i entries
              split
              · rename_i metadata given
                split
                · exact .inl rfl
                · rename_i passed
                  refine asked fun _ same _ other present => ?_
                  cases same
                  rw [Dict.get, present] at given
                  cases given
                  exact passed
              · rename_i other
                refine asked fun _ same _ metadata present => ?_
                cases same
                exact absurd (by rw [Dict.get, present]; rfl) (other metadata)
            · exact .inl rfl
          · rename_i other
            exact asked fun _ _ view => absurd view other
  · exact .inl rfl

theorem shields_updateNode (valid : σ.Valid cfg.storage) {moment : Moment} {nodeId updates metadataMerge expected : Json}
    (covers : ∀ id node entries, nodeId = .str id → updates = .obj entries → σ.stored id = some node → IsSavedView node →
      Covered cfg.storage metadataMerge.truthy (.of entries)) :
    Shields σ ((checked cfg).updateNode moment nodeId updates metadataMerge expected σ).1 := by
  rcases updateNode_asks (checked cfg) moment nodeId updates metadataMerge expected σ with
    same | ⟨id, ref, entries, request, asks, same⟩
  · rw [same]
    exact .refl σ
  · rw [same]
    intro other node here view
    have target : σ.stored id = some (σ.node ref) := Storage.stored_eq_some.mpr ⟨ref, asks.found, rfl⟩
    rcases Storage.updateNode_origin valid _ request here with before | ⟨old, validated, embedding, there, named, accepted, rfl⟩
    · exact .inr ⟨node, before, view, fun fine => fine⟩
    · rw [(valid.node_held id ref asks.found).2] at named
      subst named
      obtain rfl := Option.some.inj (there.symm.trans target)
      have viewOld : IsSavedView (σ.node ref) := view
      have covered := covers _ _ entries asks.named asks.given target viewOld
      rw [← asks.merge, ← asks.updates] at covered
      have passed : ∀ metadata, request.updates["metadata"]? = some (.obj metadata) → Embedded (.of metadata) := by
        rw [asks.updates]
        exact fun metadata present => embedded_of_checked (asks.passed viewOld metadata present)
      refine .inr ⟨_, there, viewOld, fun harmless => ?_⟩
      have done : Embedded validated.metadata := embedded_validated harmless passed covered accepted
      exact done

theorem shields_serviceAddNodes (valid : σ.Valid cfg.storage) (moment : Moment) (nodes edges : Json) :
    Shields σ ((checked cfg).addNodes moment nodes edges σ).1 := by
  rw [ServiceConfig.addNodes]
  dsimp only
  split
  · split
    · exact .refl σ
    · rename_i nodeObjects edgeObjects read
      exact shields_addNodes valid edgeObjects (embedded_readObjects read) moment.encoded
  · exact .refl σ

/-- What is adopted as a saved view has passed the check. -/
theorem passed_of_prepared {moment : Moment} {federation : Option Federated} {request : AdoptionRequest} {adoption : Adoption}
    (prepared : prepareAdoption cfg moment federation request σ = .ok adoption) (view : IsSavedView adoption.node) :
    cfg.savedViewAnnotationError adoption.node.metadata = none := by
  rw [prepareAdoption] at prepared
  split at prepared
  · cases prepared
  · split at prepared
    · cases prepared
    · cases prepared
    · split at prepared
      · cases prepared
      · split at prepared
        · cases prepared
        · rename_i passed
          cases prepared
          exact (if_pos view).symm.trans passed

/-- The metadata of the copy and of the reference differ in keys that hold no annotations. -/
theorem embedded_reference {source : Node} (fine : Embedded (adoptedMetadata source)) (fresh : Fresh) :
    Embedded (sourceReference fresh source).metadata := by
  rw [embedded_iff] at fine ⊢
  have document : (adoptedMetadata source).get "annotation_document" = source.metadata.get "annotation_document" := by
    rw [adoptedMetadata, Dict.get_insert, if_neg (by decide), Dict.get_insert, if_neg (by decide)]
  have legacy : (adoptedMetadata source).get "annotations" = source.metadata.get "annotations" := by
    rw [adoptedMetadata, Dict.get_insert, if_neg (by decide), Dict.get_insert, if_neg (by decide)]
  rw [sourceReference, Dict.get_insert, if_neg (by decide), Dict.get_insert, if_neg (by decide), Dict.get_insert,
    if_neg (by decide), Dict.get_insert, if_neg (by decide), ← document, ← legacy]
  exact fine

theorem shields_adoptFederatedNode (valid : σ.Valid cfg.storage) (moment : Moment) (federation : Option Federated)
    (request : AdoptionRequest) : Shields σ (adoptFederatedNode (checked cfg) moment federation request σ).1 := by
  rw [adoptFederatedNode]
  cases prepared : prepareAdoption (checked cfg) moment federation request σ with
  | error answer => exact .refl σ
  | ok adoption =>
    obtain ⟨_, built, _⟩ := adoption_of_prepared prepared
    have made := prepared_of_ok prepared
    have type : adoption.node.typeName = adoption.source.typeStr := (copied_adoptedNode built).2.1
    have fine : ∀ node ∈ adoption.nodes, IsSavedView node → Embedded node.metadata := by
      intro node member view
      rcases List.mem_cons.mp member with rfl | later
      · exact embedded_of_checked (passed_of_prepared prepared view)
      · rw [made.reference] at later
        split at later
        · obtain rfl := List.mem_singleton.mp later
          have same : (sourceReference (moment.fresh 1) adoption.source).typeStr = adoption.node.typeStr := by
            rw [typeStr_eq, typeStr_eq, type]
            rfl
          have kind : IsSavedView adoption.node := by rwa [IsSavedView, ← same]
          have passed := embedded_of_checked (passed_of_prepared prepared kind)
          rw [made.metadata] at passed
          exact embedded_reference passed (moment.fresh 1)
        · cases later
    have shields := shields_addNodes valid [adoption.edge] fine moment.encoded
    dsimp only
    split <;> exact shields

/-- A write that folds in nothing wrong harms no saved view. -/
theorem shields_writeStep (valid : σ.Valid cfg.storage) {write : WriteCall} {τ : Storage} {answer : Except Raised Json}
    (folds : FoldsEmbedded cfg.storage σ write) (written : writeStep (checked cfg) t σ write = some (τ, answer)) :
    Shields σ τ := by
  obtain ⟨moment, federation, decision, call⟩ := write
  cases call with
  | addNodes nodes edges =>
    obtain ⟨rfl, _⟩ := Prod.mk.inj (Option.some.inj written)
    exact shields_serviceAddNodes valid (under t decision moment) nodes edges
  | updateNode nodeId updates merge expected =>
    obtain ⟨rfl, _⟩ := Prod.mk.inj (Option.some.inj written)
    refine shields_updateNode valid fun id node entries named given here view => ?_
    subst named given
    exact folds id node entries merge expected rfl here view
  | adoptFederatedNode request =>
    obtain ⟨rfl, _⟩ := Prod.mk.inj (Option.some.inj written)
    exact shields_adoptFederatedNode valid (under t decision moment) federation request
  | _ => cases written

theorem valid_addNodes (valid : σ.Valid cfg.storage) (moment : Moment) (nodes edges : Json) :
    (cfg.addNodes moment nodes edges σ).1.Valid cfg.storage := by
  rw [ServiceConfig.addNodes]
  dsimp only
  split
  · split
    · exact valid
    · rename_i nodeObjects edgeObjects _
      have unused := unused_allocate valid nodeObjects edgeObjects
      exact (valid.kept (kept_allocate cfg.storage nodeObjects edgeObjects σ)).addNodes moment.encoded
        unused.nodesInside unused.edgesInside
  · exact valid

theorem valid_updateNode (valid : σ.Valid cfg.storage) (moment : Moment) (nodeId updates metadataMerge expected : Json) :
    (cfg.updateNode moment nodeId updates metadataMerge expected σ).1.Valid cfg.storage := by
  rcases updateNode_asks cfg moment nodeId updates metadataMerge expected σ with same | ⟨_, _, _, request, _, same⟩
  · rw [same]
    exact valid
  · rw [same]
    exact valid.updateNode _ request

theorem valid_writeStep (valid : σ.Valid cfg.storage) {write : WriteCall} {τ : Storage} {answer : Except Raised Json}
    (written : writeStep cfg t σ write = some (τ, answer)) : τ.Valid cfg.storage := by
  obtain ⟨moment, federation, decision, call⟩ := write
  cases call with
  | addNodes nodes edges =>
    obtain ⟨rfl, _⟩ := Prod.mk.inj (Option.some.inj written)
    exact valid_addNodes valid (under t decision moment) nodes edges
  | updateNode nodeId updates merge expected =>
    obtain ⟨rfl, _⟩ := Prod.mk.inj (Option.some.inj written)
    exact valid_updateNode valid (under t decision moment) nodeId updates merge expected
  | adoptFederatedNode request =>
    obtain ⟨rfl, _⟩ := Prod.mk.inj (Option.some.inj written)
    exact valid_adoptFederatedNode valid federation request
  | _ => cases written

theorem shielded_run {writes : List (WriteCall × Except Raised Json)} (valid : σ₀.Valid cfg.storage)
    (run : Run (writeStep (checked cfg) t) (fun _ σ write => FoldsEmbedded cfg.storage σ write) σ₀ writes σ) :
    Shielded σ₀ σ := by
  have kept : σ.Valid cfg.storage ∧ Shielded σ₀ σ := by
    refine run.invariant (fun _ σ => σ.Valid cfg.storage ∧ Shielded σ₀ σ) ⟨valid, fun id node here _ fine => fine node here⟩ ?_
    rintro _ ρ write τ answer ⟨valid, shielded⟩ folds written
    have valid' : ρ.Valid (checked cfg).storage := valid
    exact ⟨valid_writeStep valid' written, shielded.next (shields_writeStep valid folds written)⟩
  exact kept.2

end Writes

/-- The sanitizer changes nothing that it has changed, changes only what the check objects to, and leaves
metadata that passes the check. -/
structure Sanitizes (metadata : Json) : Prop where
  idempotent : sanitizeSavedViewMetadata (sanitizeSavedViewMetadata metadata) = sanitizeSavedViewMetadata metadata
  stripped : OnlyStripped metadata (sanitizeSavedViewMetadata metadata)
  passes : savedViewAnnotationError (sanitizeSavedViewMetadata metadata) = .ok none

/-- After writes that fold in nothing wrong, every saved view that was added or had passed the check passes it, and
the sanitizer does its work on every metadata whose annotations can be read. -/
theorem saved_views_embedded (cfg : ServiceConfig) (t : Texts) {disk : Option GraphData}
    (readable : ∀ data, disk = some data → data.Valid cfg.storage) {past : List (Action × Reply)} {σ₀ σ : Storage}
    (reached : Run (Storage.step cfg.storage) (fun _ _ _ => True) { saved := disk } past σ₀)
    {writes : List (WriteCall × Except Raised Json)}
    (run : Run (writeStep (checked cfg) t) (fun _ σ write => FoldsEmbedded cfg.storage σ write) σ₀ writes σ) :
    Shielded σ₀ σ ∧ ∀ metadata, Sanitizes metadata ↔ Legible metadata := by
  have valid : σ₀.Valid cfg.storage := reached.invariant (fun _ σ => σ.Valid cfg.storage) (.initial readable)
    fun valid _ stepped => valid.step stepped
  refine ⟨shielded_run valid run, fun metadata => ?_⟩
  rw [← passes_sanitize_iff]
  exact ⟨Sanitizes.passes, fun passes => ⟨sanitizeSavedViewMetadata_idem metadata, onlyStripped_sanitize metadata, passes⟩⟩

theorem emptyView_limits : FieldLimits "Overview" "" "" [] [] := by decide +kernel

/-- A saved view without annotations. -/
def emptyView : Node := { sampleActor "v" "Overview" emptyView_limits with typeName := "SavedView" }

/-- An update of the view with a field that is folded into its metadata. -/
def foldCall (key : String) (value : Json) : WriteCall where
  moment := plainMoment
  federation := none
  decision := {}
  call := .updateNode (.str "v") (.obj [(key, value)]) (.bool true) .null

/-- A list with one image, which the viewer is to fetch. -/
def remoteImages : Json := .arr [.obj [("image", .obj [("url", .str "https://a.org/b.png")]), ("type", .str "image")]]

def passesCheck (σ : Storage) (id : String) : Option Bool :=
  (σ.stored id).map fun node => (savedViewAnnotationError (.obj node.metadata.toList)).toOption = some none

theorem embedded_of_passes {metadata : Dict Json}
    (passes : (savedViewAnnotationError (.obj metadata.toList)).toOption = some none) : Embedded metadata := by
  rw [Embedded]
  cases found : savedViewAnnotationError (.obj metadata.toList) with
  | error value =>
    rw [found] at passes
    cases passes
  | ok error =>
    rw [found] at passes
    cases passes
    rfl

/-- A list of annotations beside the metadata is folded in unchecked. -/
theorem saved_views_unembedded : ¬ ∀ (cfg : ServiceConfig) (t : Texts) (disk : Option GraphData),
    (∀ data, disk = some data → data.Valid cfg.storage) → ∀ past σ₀ σ writes,
      Run (Storage.step cfg.storage) (fun _ _ _ => True) { saved := disk } past σ₀ →
        Run (writeStep (checked cfg) t) (fun _ _ _ => True) σ₀ writes σ →
          Shielded σ₀ σ ∧ ∀ metadata, Sanitizes metadata := by
  intro promised
  have observed : ((leadsTo (Storage.step sampleConfig) {} [.newNode emptyView, .addNodes [0] [] none]).bind fun σ₀ =>
      (leadsTo (writeStep (checked plainService) plainTexts) σ₀ [foldCall "annotations" remoteImages]).map fun σ =>
        (σ₀, σ)).map (fun reached => (passesCheck reached.1 "v", passesCheck reached.2 "v",
          (reached.2.stored "v").map fun node => node.typeStr)) = some (some true, some false, some "SavedView") := by
    decide +kernel
  obtain ⟨⟨σ₀, σ⟩, reached, seen⟩ := Option.map_eq_some_iff.mp observed
  obtain ⟨other, stored, rest⟩ := Option.bind_eq_some_iff.mp reached
  obtain ⟨_, written, same⟩ := Option.map_eq_some_iff.mp rest
  cases same
  obtain ⟨past, storing⟩ := Run.of_leadsTo stored
  obtain ⟨writes, run⟩ := Run.of_leadsTo written
  have before : passesCheck σ₀ "v" = some true := congrArg Prod.fst seen
  have after : passesCheck σ "v" = some false := congrArg (fun told => told.2.1) seen
  have kind : (σ.stored "v").map (fun node => node.typeStr) = some "SavedView" := congrArg (fun told => told.2.2) seen
  obtain ⟨shielded, _⟩ := promised plainService plainTexts none (fun _ no => (by cases no)) past σ₀ σ writes storing run
  obtain ⟨node, here, type⟩ := Option.map_eq_some_iff.mp kind
  have view : IsSavedView node := by rw [IsSavedView, type]; decide
  have harmless := shielded "v" node here view fun old there => by
    rw [passesCheck, there] at before
    exact embedded_of_passes (of_decide_eq_true (Option.some.inj before))
  rw [passesCheck, here] at after
  have refused := of_decide_eq_false (Option.some.inj after)
  rw [harmless] at refused
  exact refused rfl

/-- A colour is folded into a view, which still passes the check. -/
theorem saved_views_embedded_sample : ∃ past σ₀ writes σ,
    Run (Storage.step sampleConfig) (fun _ _ _ => True) {} past σ₀ ∧
      Run (writeStep (checked plainService) plainTexts)
          (fun _ σ write => FoldsEmbedded plainService.storage σ write) σ₀ writes σ ∧
        ((σ.stored "v").map fun node => node.metadata.get "color") = some (.str "blue") ∧
          Shielded σ₀ σ ∧ ∀ metadata, Sanitizes metadata ↔ Legible metadata := by
  have observed : ((leadsTo (Storage.step sampleConfig) {} [.newNode emptyView, .addNodes [0] [] none]).bind fun σ₀ =>
      ((writeStep (checked plainService) plainTexts σ₀ (foldCall "color" (.str "blue"))).map fun stepped =>
        (σ₀, stepped))).map (fun reached => (reached.2.1.stored "v").map fun node => node.metadata.get "color") =
      some (some (.str "blue")) := by
    decide +kernel
  obtain ⟨⟨σ₀, σ, answer⟩, reached, seen⟩ := Option.map_eq_some_iff.mp observed
  obtain ⟨other, stored, rest⟩ := Option.bind_eq_some_iff.mp reached
  obtain ⟨_, written, same⟩ := Option.map_eq_some_iff.mp rest
  cases same
  obtain ⟨past, storing⟩ := Run.of_leadsTo stored
  have folds : FoldsEmbedded plainService.storage σ₀ (foldCall "color" (.str "blue")) := by
    intro id node entries merge expected call _ _
    cases call
    refine ⟨embedded_of_passes (by decide +kernel), fun no => (by cases no)⟩
  have run : Run (writeStep (checked plainService) plainTexts)
      (fun _ σ write => FoldsEmbedded plainService.storage σ write) σ₀ ([] ++ [(foldCall "color" (.str "blue"), answer)]) σ :=
    .next .start folds written
  have readable : ∀ data, (none : Option GraphData) = some data → data.Valid plainService.storage := fun _ no => by
    cases no
  exact ⟨past, σ₀, _, σ, storing, run, seen, saved_views_embedded plainService plainTexts readable storing run⟩

end MetadataGraph.Service
