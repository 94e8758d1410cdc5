import SattLine.Compare.Fingerprint

/-!
Variants of a module: groups of instances with one structure, what all variants have in common
and what each has of its own, and the text that says so.
-/

namespace SattLine.Compare

/-- What is common to all variants, and the rest of each variant in their order. -/
structure Difference (α : Type) where
  common : List α
  rest : List (List α)
  deriving DecidableEq, Repr

namespace Difference

/-- The variants with their numbers, which start with one. -/
def numbered (d : Difference α) : List (Nat × List α) :=
  (d.rest.zipIdx 1).map fun (items, number) => (number, items)

end Difference

/-- What sets of one kind have in common. -/
def commonOf [BEq α] : List (List α) → List α
  | [] => []
  | first :: others => first.filter fun a => others.all fun set => set.contains a

def differenceOfSets [BEq α] (sets : List (List α)) : Difference α :=
  let common := commonOf sets
  ⟨common, sets.map fun set => set.filter fun a => !common.contains a⟩

/-- The spelling of a plain name: the last one in the list. -/
def spelling (names : List String) (plain : String) : String :=
  (names.reverse.find? fun name => plainName name == plain).getD plain

/-- Names are compared by their plain form and shown as they are spelled. -/
def differenceOfNames (variants : List (List String)) : Difference String :=
  let difference := differenceOfSets (variants.map fun names => Text.sortedSet (names.map plainName))
  ⟨difference.common.map (spelling ((variants.head?).getD [])),
    (variants.zip difference.rest).map fun (names, own) => own.map (spelling names)⟩

structure Differences where
  parameters : Difference String
  locals : Difference String
  tree : Difference TreeNode
  sequences : Difference String
  equations : Difference String

def differences (variants : List Fingerprint) : Except Fault Differences := do
  let sequences ← variants.mapM fun f => f.sequences.mapM codeName
  let equations ← variants.mapM fun f => f.equations.mapM codeName
  return {
    parameters := differenceOfNames (variants.map fun f => f.info.parameters.map (·.name))
    locals := differenceOfNames (variants.map fun f => f.info.locals.map (·.name))
    tree := differenceOfSets (variants.map (·.tree))
    sequences := differenceOfNames sequences
    equations := differenceOfNames equations }

/-- The comparison of all modules of one name. -/
structure Comparison where
  name : String
  variants : List Fingerprint
  instances : List Fingerprint
  differences : Option Differences

/-- One fingerprint for each structure, code names included, in the order of the instances. -/
def representatives : List (Fingerprint × CodeNames) → List (Fingerprint × CodeNames)
  | [] => []
  | (f, names) :: rest =>
    (f, names) :: (representatives rest).filter fun (other, otherNames) =>
      !(f.sameShape other && names == otherNames)

/-- Compares modules that were found at some paths. -/
def compareAll (found : List (Path × Value)) : Except Fault Comparison := do
  let instances ← found.mapM fun (path, m) => Fingerprint.ofValue path m
  let named ← instances.mapM fun f => do return (f, ← codeNames f)
  let variants := (representatives named).map Prod.fst
  let name := ((instances.head?).map (·.info.header.name)).getD "<none>"
  let differences ← if variants.length > 1 then do pure (some (← differences variants))
    else pure none
  return ⟨name, variants, instances, differences⟩

def shownNames (names : List String) : String :=
  "[" ++ ", ".intercalate ((Text.sorted names).map Text.quoted) ++ "]"

/-- The lines on what is common and what is left. -/
def nameLines (label : String) (d : Difference String) : List String :=
  (label ++ "Common (" ++ toString d.common.length ++ "): " ++ shownNames d.common) ::
    (d.numbered.filter fun entry => !entry.2.isEmpty).map fun (number, names) =>
      label ++ "Only in Variant " ++ toString number ++ " (" ++ toString names.length ++ "): " ++
        shownNames names

/-- The nodes of a tree, one to a line, indented by their depth. -/
def treeLines (nodes : List TreeNode) : List String :=
  nodes.map fun node =>
    "  " ++ String.join (List.replicate node.depth.toNat "  ") ++ "Depth " ++ toString node.depth ++ ": " ++
      node.name ++ " (" ++ node.kind ++ ")"

def locationLine (f : Fingerprint) : Except Fault String := do
  return "  DateCode: " ++ (← f.info.dateCode.shown) ++ " - " ++ " → ".intercalate f.path

/-- The lines on one variant and the instances that have its shape. -/
def variantLines (number : Nat) (variant : Fingerprint) (members : List Fingerprint) :
    Except Fault (List String) := do
  let locations ← members.mapM locationLine
  return ["=== Variant " ++ toString number ++ " (" ++ toString members.length ++
      " instance(s)) ===",
    "Parameters: " ++ toString variant.info.parameters.length,
    "Local Vars: " ++ toString variant.info.locals.length,
    "Submodules: " ++ toString variant.submodules.length,
    "Sequences: " ++ toString variant.sequences.length,
    "Equations: " ++ toString variant.equations.length,
    "Locations:"] ++ locations ++ [""]

/-- The number of the first variant that an instance has the shape of. -/
def variantOf (variants : List Fingerprint) (f : Fingerprint) : Option Nat :=
  variants.findIdx? fun variant => f.sameShape variant

def codeLines (label : String) (d : Difference String) : List String :=
  if d.common.isEmpty && d.rest.all List.isEmpty then [] else nameLines label d

def differenceLines (d : Differences) : List String :=
  ["=== Module Parameters Differences ==="] ++ nameLines "" d.parameters ++ [""] ++
  ["=== Local Variables Differences ==="] ++ nameLines "" d.locals ++ [""] ++
  ["=== Submodules Differences (Recursive Tree) ===",
    "Common across all variants (" ++ toString d.tree.common.length ++ " total):"] ++
  treeLines d.tree.common ++
  ((d.tree.numbered.filter fun entry => !entry.2.isEmpty).flatMap fun (number, nodes) =>
    ("Only in Variant " ++ toString number ++ " (" ++ toString nodes.length ++ " nodes):") ::
      treeLines nodes) ++ [""] ++
  ["=== Module Code Differences ==="] ++ codeLines "Sequences " d.sequences ++
  codeLines "Equations " d.equations ++ [""]

namespace Comparison

def summary (c : Comparison) : Except Fault String := do
  let heading := ["Module Name: " ++ Text.quoted c.name,
    "Total Instances Found: " ++ toString c.instances.length,
    "Unique Variants: " ++ toString c.variants.length, ""]
  let lines ←
    if c.instances.isEmpty then pure ["⚠ No modules found with this name"]
    else if c.variants.length == 1 then do
      let locations ← c.instances.mapM locationLine
      pure (["✓ All instances are structurally identical (datecodes may differ)", "",
        "Instance locations:"] ++ locations)
    else do
      let variants ← (c.variants.zipIdx).mapM fun (variant, index) =>
        variantLines (index + 1) variant
          (c.instances.filter fun f => variantOf c.variants f == some index)
      pure (["⚠ Found " ++ toString c.variants.length ++ " different structural variants", ""] ++
        variants.flatten ++ ((c.differences.map differenceLines).getD []))
  return "\n".intercalate (heading ++ lines)

end Comparison

end SattLine.Compare
