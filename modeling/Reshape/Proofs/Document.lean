import Reshape.Document
import Reshape.Proofs.Json.Legible
import Reshape.Proofs.Json.Start

/-!
# Reading a document

The check of a text passes exactly if the text can be decoded (`readDocument_eq_ok_iff`), so that
reading either gives the decoded value or makes one complaint. A mapping has to be an object; what
else a check remarks on keeps no mapping from being read (`readMapping_obj`), and what was read can
be shown in a remark.
-/

namespace Reshape

variable {role : Role} {text : Text} {v : Value}

theorem checkText_of_decode_ok (h : Json.decode text = .ok v) : checkText text = .ok {} := by
  have hne : trim text ≠ [] := fun hnil => by
    obtain ⟨e, he⟩ := Json.exists_decode_error_of_blank hnil
    rw [h] at he
    cases he
  rw [checkText, if_neg hne, h]

/-- A text that cannot be decoded gives cause for one complaint. -/
theorem checkInput_of_decode_error {e : Json.DecodeError} (h : Json.decode text = .error e) :
    ∃ complaint, checkInput (.str text) = { errors := [complaint] } := by
  rw [checkInput, checkValue, checkText, h]
  split
  · next hcheck =>
    split at hcheck
    · cases hcheck
      exact ⟨_, rfl⟩
    · cases e <;> cases hcheck
      exact ⟨_, rfl⟩
  · exact ⟨_, rfl⟩

theorem readDocument_of_decode_ok (role : Role) (h : Json.decode text = .ok v) :
    readDocument role text = .ok v := by
  rw [readDocument, checkInput, checkValue, checkText_of_decode_ok h, h]
  rfl

theorem readDocument_of_decode_error (role : Role) {e : Json.DecodeError}
    (h : Json.decode text = .error e) :
    ∃ complaint, readDocument role text = .error (.unreadable role [complaint]) := by
  obtain ⟨complaint, hcheck⟩ := checkInput_of_decode_error h
  rw [readDocument, hcheck, h]
  exact ⟨complaint, rfl⟩

theorem readDocument_eq_ok_iff : readDocument role text = .ok v ↔ Json.decode text = .ok v := by
  constructor
  · intro h
    cases hd : Json.decode text with
    | ok w =>
      rw [readDocument_of_decode_ok role hd] at h
      cases h
      rfl
    | error e =>
      obtain ⟨complaint, he⟩ := readDocument_of_decode_error role hd
      rw [he] at h
      cases h
  · exact readDocument_of_decode_ok role

/-! ### The check of a mapping that was read -/

section

variable {room n : Nat}

theorem exists_nameCaution (registry : Option Registry) {name : Value} (h : name.Legible n)
    (hroom : n < room) :
    ∃ caution, nameCaution? room registry name = .ok caution := by
  unfold nameCaution?
  split
  · obtain ⟨shown, hshown⟩ := h.exists_quoted hroom
    rw [hshown]
    exact ⟨_, rfl⟩
  · exact ⟨_, rfl⟩

theorem exists_valueCautions (registry : Option Registry) {v : Value} (h : v.Legible n)
    (hroom : n < room) :
    ∃ cautions, valueCautions room registry v = .ok cautions := by
  cases h with
  | @obj n ms members =>
    rw [valueCautions, directiveCautions]
    split
    · exact ⟨_, rfl⟩
    · next name hname =>
      obtain ⟨caution, hcaution⟩ := exists_nameCaution registry
        (members _ (Keyed.mem_of_get? hname)) (Nat.lt_of_succ_lt hroom)
      rw [hcaution]
      exact ⟨_, rfl⟩
  | _ => exact ⟨_, rfl⟩

/-- Whatever the remarks on an object, it is valid. -/
theorem exists_checkMapping (registry : Option Registry) {ms : Members}
    (h : (Value.obj ms).Legible n) (hroom : n < room) :
    ∃ verdict, checkMapping room registry (.obj ms) = .ok verdict ∧ verdict.isValid = true := by
  cases h with
  | @obj n _ members =>
    have hmember : ∀ m ∈ ms, ∃ remarks, memberRemarks room registry m = .ok remarks :=
      fun m hm => by
      obtain ⟨cautions, hcautions⟩ := exists_valueCautions registry (members m hm)
        (show n < room - 1 by omega)
      rw [memberRemarks, hcautions]
      exact ⟨_, rfl⟩
    obtain ⟨remarks, hremarks⟩ := Traverse.exists_mapM_ok hmember
    rw [checkMapping, hremarks]
    exact ⟨_, rfl, rfl⟩

end

/-! ### Mappings -/

theorem readMapping_of_decode_error (registry : Option Registry) {e : Json.DecodeError}
    (h : Json.decode text = .error e) :
    ∃ complaint, readMapping registry text =
      .error (.document (.unreadable .mapping [complaint])) := by
  obtain ⟨complaint, hread⟩ := readDocument_of_decode_error .mapping h
  rw [readMapping, hread]
  exact ⟨complaint, rfl⟩

theorem readMapping_obj (registry : Option Registry) {ms : Members}
    (h : Json.decode text = .ok (.obj ms)) : readMapping registry text = .ok ms := by
  obtain ⟨verdict, hcheck, hvalid⟩ := exists_checkMapping registry
    (Json.legible_of_decode h) (show Json.nestingLimit < checkRoom by decide)
  rw [readMapping, readDocument_of_decode_ok .mapping h]
  simp only [Except.mapError, bind, Except.bind, hcheck, hvalid]
  rfl

theorem readMapping_of_not_obj (registry : Option Registry) (h : Json.decode text = .ok v)
    (hv : ∀ ms, v ≠ .obj ms) :
    readMapping registry text = .error (.document (.misshapen [.notAnObject v.typeName])) := by
  rw [readMapping, readDocument_of_decode_ok .mapping h]
  cases v with
  | obj ms => exact (hv ms rfl).elim
  | _ => rfl

/-- What a text holds can always be shown. -/
theorem exists_document_of_readMapping {registry : Option Registry} {e : MappingError}
    (h : readMapping registry text = .error e) : ∃ d, e = .document d := by
  cases hd : Json.decode text with
  | error e' =>
    obtain ⟨complaint, hread⟩ := readMapping_of_decode_error registry hd
    cases hread.symm.trans h
    exact ⟨_, rfl⟩
  | ok w =>
    by_cases hobj : ∃ ms, w = .obj ms
    · obtain ⟨ms, rfl⟩ := hobj
      cases (readMapping_obj registry hd).symm.trans h
    · cases (readMapping_of_not_obj registry hd fun ms hw => hobj ⟨ms, hw⟩).symm.trans h
      exact ⟨_, rfl⟩

theorem readMapping_eq_ok_iff (registry : Option Registry) {ms : Members} :
    readMapping registry text = .ok ms ↔ Json.decode text = .ok (.obj ms) := by
  refine ⟨fun h => ?_, readMapping_obj registry⟩
  cases hd : Json.decode text with
  | error e =>
    obtain ⟨complaint, hread⟩ := readMapping_of_decode_error registry hd
    rw [hread] at h
    cases h
  | ok w =>
    by_cases hobj : ∃ ms', w = .obj ms'
    · obtain ⟨ms', rfl⟩ := hobj
      rw [readMapping_obj registry hd] at h
      cases h
      rfl
    · rw [readMapping_of_not_obj registry hd fun ms' hw => hobj ⟨ms', hw⟩] at h
      cases h

end Reshape
