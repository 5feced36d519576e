import ContractLedger.Admission.Inspection
import Mathlib.Data.List.Forall2

/-!
What the inspection finds. A reference is objected to if its signature is denied, or if it is generic
under the stricter policy, whatever the instruction that holds it. A method is rejected if it holds such
a reference; it is reported once, with the first of them, and no other method is reported.
-/

namespace ContractLedger

namespace Denylist

variable {denylist : Denylist} {signature other : String}

theorem mem_insert :
    other ∈ (denylist.insert signature).signatures ↔
      other = signature ∨ other ∈ denylist.signatures := by
  unfold insert
  split
  case isTrue present =>
    refine ⟨.inr, ?_⟩
    rintro (rfl | denied)
    · exact present
    · exact denied
  case isFalse => exact List.mem_cons

theorem mem_extend {signatures : List String} :
    other ∈ (denylist.extend signatures).signatures ↔
      other ∈ signatures ∨ other ∈ denylist.signatures := by
  induction signatures generalizing denylist with
  | nil => simp [extend]
  | cons signature rest ih =>
    have onward : denylist.extend (signature :: rest) = (denylist.insert signature).extend rest := rfl
    rw [onward, ih, mem_insert, List.mem_cons, or_left_comm, or_assoc]

end Denylist

namespace MethodReference

/-- Whether a text is the signature by which a method is denied or not: the return type, the declaring
type and the name, then the parameters in brackets with commas between them. -/
def HasSignature (reference : MethodReference) (text : String) : Prop :=
  text.toList = reference.returnType.toList ++ [' '] ++ reference.declaringType.toList ++
    [':', ':'] ++ reference.name.toList ++ ['('] ++
    [','].intercalate (reference.parameters.map String.toList) ++ [')']

instance (reference : MethodReference) : DecidablePred reference.HasSignature :=
  fun _ => inferInstanceAs (Decidable (_ = _))

theorem hasSignature_iff {reference : MethodReference} {text : String} :
    reference.HasSignature text ↔ text = reference.fullName := by
  rw [HasSignature, fullName, ← String.toList_inj]
  simp [String.toList_intercalate]

end MethodReference

theorem Instruction.reference?_eq_some {instruction : Instruction} {reference : MethodReference} :
    instruction.reference? = some reference ↔ instruction.operand = .method reference := by
  unfold reference?
  cases instruction.operand <;> simp

namespace Inspector

def Objects (inspector : Inspector) (reference : MethodReference) : Prop :=
  (∃ signature ∈ inspector.denylist.signatures, reference.HasSignature signature) ∨
    reference.generic = true ∧ inspector.generics = .reject

instance (inspector : Inspector) : DecidablePred inspector.Objects :=
  fun _ => inferInstanceAs (Decidable (_ ∨ _))

/-- Whether a method has an instruction, whatever its opcode, with a reference that is objected to. -/
def Rejects (inspector : Inspector) (method : MethodBody) : Prop :=
  ∃ instruction ∈ method.body, ∃ reference,
    instruction.operand = .method reference ∧ inspector.Objects reference

/-- What a violation reports of a method: the method itself, the place and the signature of the first
reference that is objected to, and that this is denied if it is, whether or not it is also generic. -/
inductive Reports (inspector : Inspector) (method : MethodBody) : Violation → Prop
  | first {before after : List Instruction} {instruction : Instruction} {reference : MethodReference}
      {offence : Offence} {signature : String}
      (body : method.body = before ++ instruction :: after)
      (refers : instruction.operand = .method reference)
      (objects : inspector.Objects reference)
      (earlier : ∀ passed ∈ before, ∀ other, passed.operand = .method other →
        ¬ inspector.Objects other)
      (signed : reference.HasSignature signature)
      (kind : offence = .nonDeterministicCall ↔ signature ∈ inspector.denylist.signatures) :
      Reports inspector method
        ⟨method.name, method.fullName, instruction.offset, offence, signature⟩

variable {inspector : Inspector} {reference : MethodReference} {method : MethodBody}
  {instruction : Instruction} {violation : Violation}

theorem objects_iff :
    inspector.Objects reference ↔ reference.fullName ∈ inspector.denylist.signatures ∨
      reference.generic = true ∧ inspector.generics = .reject := by
  simp [Objects, MethodReference.hasSignature_iff]

instance (inspector : Inspector) : DecidablePred inspector.Rejects :=
  fun method => decidable_of_iff
    (∃ instruction ∈ method.body, ∃ reference ∈ instruction.reference?, inspector.Objects reference)
    (by simp only [Rejects, Option.mem_def, Instruction.reference?_eq_some])

theorem offence?_eq_some {offence : Offence} :
    inspector.offence? reference = some offence ↔
      inspector.Objects reference ∧
        (offence = .nonDeterministicCall ↔ reference.fullName ∈ inspector.denylist.signatures) := by
  by_cases denied : reference.fullName ∈ inspector.denylist.signatures
  · cases offence <;> simp [offence?, objects_iff, Denylist.contains, denied]
  · cases offence <;> simp [offence?, objects_iff, Denylist.contains, denied]

theorem offence?_eq_none : inspector.offence? reference = none ↔ ¬ inspector.Objects reference := by
  by_cases denied : reference.fullName ∈ inspector.denylist.signatures
  · simp [offence?, objects_iff, Denylist.contains, denied]
  · simp [offence?, objects_iff, Denylist.contains, denied]

theorem violation?_eq_some :
    inspector.violation? method instruction = some violation ↔
      ∃ reference offence, instruction.reference? = some reference ∧
        inspector.offence? reference = some offence ∧
        ⟨method.name, method.fullName, instruction.offset, offence, reference.fullName⟩ = violation := by
  simp [violation?, Option.bind_eq_some_iff]

theorem violation?_eq_none :
    inspector.violation? method instruction = none ↔
      ∀ reference, instruction.reference? = some reference → ¬ inspector.Objects reference := by
  simp only [violation?, ← offence?_eq_none]
  cases instruction.reference? with
  | none => simp
  | some reference => cases found : inspector.offence? reference <;> simp [found]

/-- The inspection of a method finds what a violation of it has to report. -/
theorem inspectMethod_eq_some :
    inspector.inspectMethod method = some violation ↔ inspector.Reports method violation := by
  rw [inspectMethod, List.findSome?_eq_some_iff]
  simp only [violation?_eq_none, violation?_eq_some, Instruction.reference?_eq_some]
  constructor
  · rintro ⟨before, instruction, after, body, ⟨reference, offence, refers, offends, rfl⟩, passed⟩
    obtain ⟨objects, kind⟩ := offence?_eq_some.mp offends
    exact .first body refers objects passed (MethodReference.hasSignature_iff.mpr rfl) kind
  · rintro ⟨body, refers, objects, earlier, signed, kind⟩
    obtain rfl := MethodReference.hasSignature_iff.mp signed
    exact ⟨_, _, _, body, ⟨_, _, refers, offence?_eq_some.mpr ⟨objects, kind⟩, rfl⟩, earlier⟩

/-- The inspection of a method finds nothing unless the method is rejected. -/
theorem inspectMethod_eq_none : inspector.inspectMethod method = none ↔ ¬ inspector.Rejects method := by
  rw [inspectMethod, List.findSome?_eq_none_iff]
  simp only [violation?_eq_none, Instruction.reference?_eq_some, Rejects, not_exists, not_and]

/-- The rejected methods of a module are reported, each once and in the order of declaration. -/
theorem inspect_reports (inspector : Inspector) (module : ModuleBody) :
    List.Forall₂ inspector.Reports
      ((module.types.flatMap TypeBody.methods).filter inspector.Rejects)
      (inspector.inspect module) := by
  rw [inspect, ModuleBody.methods]
  induction module.types.flatMap TypeBody.methods with
  | nil => exact .nil
  | cons method rest ih =>
    by_cases rejected : inspector.Rejects method
    · cases found : inspector.inspectMethod method with
      | none => exact absurd rejected (inspectMethod_eq_none.mp found)
      | some violation =>
        rw [List.filter_cons_of_pos (by simpa using rejected), List.filterMap_cons_some found]
        exact .cons (inspectMethod_eq_some.mp found) ih
    · rw [List.filter_cons_of_neg (by simpa using rejected),
        List.filterMap_cons_none (inspectMethod_eq_none.mpr rejected)]
      exact ih

/-- A method that loads a generic reference and then calls a denied one, and a method without references. -/
example :
    Inspector.inspect ⟨.ofList ["u64 rand::random()"], .reject⟩
        ⟨[⟨"Raffle",
          [⟨"draw", "void Raffle::draw()",
              [⟨0, .nop, .none⟩, ⟨1, .loadFunction, .method ⟨"u64", "rand", "any", ["T"], true⟩⟩,
                ⟨6, .call, .method ⟨"u64", "rand", "random", [], false⟩⟩]⟩,
            ⟨"close", "void Raffle::close()", [⟨0, .leave, .none⟩]⟩]⟩]⟩ =
      [⟨"draw", "void Raffle::draw()", 1, .unresolvedGenericCall, "u64 rand::any(T)"⟩] := by
  decide +kernel

/-- An inspector that denies as much, and is as strict about generic references, rejects as much. -/
theorem Rejects.mono {strict : Inspector} (rejected : inspector.Rejects method)
    (denies : ∀ signature ∈ inspector.denylist.signatures, signature ∈ strict.denylist.signatures)
    (strictly : inspector.generics = .reject → strict.generics = .reject) : strict.Rejects method := by
  obtain ⟨instruction, member, reference, refers, objects⟩ := rejected
  refine ⟨instruction, member, reference, refers, ?_⟩
  rcases objects with ⟨signature, denied, signed⟩ | ⟨generic, rejecting⟩
  · exact .inl ⟨signature, denies signature denied, signed⟩
  · exact .inr ⟨generic, strictly rejecting⟩

/-- A longer denylist admits no method that a shorter one rejects. -/
theorem Rejects.extend (rejected : inspector.Rejects method) (signatures : List String) :
    { inspector with denylist := inspector.denylist.extend signatures }.Rejects method :=
  rejected.mono (fun _ denied => Denylist.mem_extend.mpr (.inr denied)) id

/-- The stricter policy admits no method that the other one rejects. -/
theorem Rejects.reject (rejected : inspector.Rejects method) :
    { inspector with generics := .reject }.Rejects method :=
  rejected.mono (fun _ denied => denied) fun _ => rfl

end Inspector

end ContractLedger
