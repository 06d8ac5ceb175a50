import Courier.Build
import Courier.Sample

/-! A demonstration: a value on its way through its transfer type, and the code for a schema. -/
namespace Courier.Demo
open Courier.Emit

def address : Sample := ⟨"Address", [("street", .text), ("city", .text)], []⟩

def person : Sample :=
  { name := "Person"
    fields := [("name", .text), ("age", .number "u32"), ("address", .struct "Address"),
      ("previous_addresses", .list (.struct "Address")),
      ("mailing_address", .optional (.struct "Address"))]
    nested := ["Address"] }

/-- The model that is converted. -/
def ada : Value :=
  .record "Person"
    [("name", .text "Ada"), ("age", .number 36),
     ("address", .record "Address"
       [("street", .text "12 St James's Square"), ("city", .text "London")]),
     ("previous_addresses", .list []), ("mailing_address", .absent)]

def schema : String :=
  "<dtoSchema package=\"shop\">
    <model name=\"ProductItem\" kind=\"struct\">
        <property name=\"id\" type=\"String\"/>
        <property name=\"price\" type=\"f64\"/>
    </model>
    <model name=\"Order\" kind=\"struct\">
        <directive>
            <argument label=\"nestedDTOs\">[\"ProductItem\"]</argument>
        </directive>
        <property name=\"number\" type=\"u64\"/>
        <property name=\"items\" type=\"[ProductItem]\"/>
        <property name=\"gift\" type=\"ProductItem?\"/>
    </model>
</dtoSchema>"

/-- A line with a value. -/
def line (title : String) (v : Option Value) : String :=
  title ++ (v.map Value.display).getD "" ++ "\n"

/-- What the demonstration prints. -/
def text : String :=
  let items := Sample.code [address, person]
  let dto := Sample.toTransfer items ada
  let restored := dto.bind (Sample.buildModel items person)
  let code := match (generateFrom schema .default).result with
    | .ok code => code
    | .error e => e.message
  line "Model:    " (some ada) ++ line "Transfer: " dto ++ line "Restored: " restored ++ "\n" ++
    code ++ "\n"

/-- The build of the sample schema, which resolves all its nested names. -/
def build : Build :=
  { Build.ofSchema "tests/schemas/inventory.xml" with config := { Config.default with strict := true } }

end Courier.Demo
