import ContractLedger.Contract.Definition
import ContractLedger.Text.Quoted

/-!
One-line descriptions of contract types and of their instances.
-/

namespace ContractLedger

/-- Names the type and its methods, in the order of their names. -/
def ContractType.text (type : ContractType) : String :=
  "ContractType \x7b name: " ++ Text.quoted type.name ++ ", methods: [" ++
    String.intercalate ", " (type.methods.keys.map Text.quoted) ++ "] \x7d"

def Instance.text (target : Instance) : String :=
  "ContractInstance \x7b type_name: " ++ Text.quoted target.typeName ++ " \x7d"

end ContractLedger
