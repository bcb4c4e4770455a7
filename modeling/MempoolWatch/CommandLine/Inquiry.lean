import MempoolWatch.CommandLine.Exit
import MempoolWatch.Detector
import MempoolWatch.Rpc.Client

/-! The inquiry program: the estimates of all categories for one transaction, also
of those that stay below the minimum profit. -/
namespace MempoolWatch.CommandLine

/-- A text with blanks behind it up to a width. -/
def padRight (width : Nat) (text : String) : String :=
  text ++ String.ofList (List.replicate (width - text.length) ' ')

def estimateLine (params : Params) (estimate : ProfitEstimate) : String :=
  padRight 14 estimate.kind.name
    ++ " montante=" ++ Decimal.fixed 6 estimate.amount ++ " (" ++ estimate.amountSource.label
    ++ ") bruto=" ++ Decimal.fixed 6 estimate.gross ++ " gas=" ++ Decimal.fixed 6 estimate.gasCost
    ++ " líquido=" ++ Decimal.fixed 6 estimate.net
    ++ " mínimo=" ++ Decimal.shortest (params.category estimate.kind).minProfit
    ++ " confiança=" ++ Decimal.fixed 0 (estimate.confidence * 100.0) ++ "%"

def categoryLine (params : Params) (node : Node) (classified : ClassifiedTx)
    (kind : OpportunityKind) : Except Fault String := do
  match ← params.evaluate kind node classified with
  | some estimate => return estimateLine params estimate
  | none => return padRight 14 kind.name ++ " sem a tag " ++ kind.gatingTag.name

/-- The lines about a classified transaction up to the first fault. -/
def categoryLines (params : Params) (node : Node) (classified : ClassifiedTx) :
    List OpportunityKind → List String × Option Fault
  | [] => ([], none)
  | kind :: rest =>
    match categoryLine params node classified kind with
    | .error cause => ([], some cause)
    | .ok line =>
      let (lines, fault) := categoryLines params node classified rest
      (line :: lines, fault)

def classificationLines (classified : ClassifiedTx) : List String :=
  ("Tags: " ++ classified.tags.text)
    :: (classified.functionName?.map fun name => "Função: " ++ name).toList

def written (lines : List String) : Bytes :=
  Utf8.encode (String.join (lines.map (· ++ "\n")))

/-- Shows what is known about the transaction of a hash. -/
def inquire (node : Node) (hash : Hash) : Exit :=
  match node.transaction hash with
  | .error cause => .failed [] (.node cause)
  | .ok none => .success (written ["Transação não encontrada (já minerada ou descartada)"])
  | .ok (some tx) =>
    let classified := Tagger.standard.classify tx
    let (lines, fault) := categoryLines .defaults node classified OpportunityKind.all
    let output := written (classificationLines classified ++ lines)
    match fault with
    | none => .success output
    | some cause => .failed output (.node cause)

/-- The first argument is the hash; without one the program only says so. -/
def inquiry (exchange : Rpc.Call → Rpc.Reply) : List String → Exit
  | [] => ⟨1, [], none⟩
  | text :: _ =>
    match FixedBytes.ofText? 32 text with
    | some hash => inquire (.ofExchange exchange) hash
    | none => .failed [] (.badHash text)

end MempoolWatch.CommandLine
