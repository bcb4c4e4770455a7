import MempoolWatch.Snapshot
import MempoolWatch.Statistics

/-! The entries of a report and their texts. Each entry is written as a whole. -/
namespace MempoolWatch

/-- The time of day to the millisecond. -/
structure TimeOfDay where
  hour : Nat
  minute : Nat
  second : Nat
  millisecond : Nat
deriving DecidableEq

/-- Two digits for each part and three for the milliseconds. -/
def TimeOfDay.text (time : TimeOfDay) : String :=
  String.ofList (Decimal.padded 2 time.hour ++ ':' :: Decimal.padded 2 time.minute
    ++ ':' :: Decimal.padded 2 time.second ++ '.' :: Decimal.padded 3 time.millisecond)

namespace Report

inductive Entry
  | banner (socketUrl nodeUrl : String) (showAll : Bool)
  | snapshot (snapshot : Snapshot)
  | subscribed (subscription : String)
  /-- One line for an analysed transaction. -/
  | transaction (index : Nat) (report : TxReport)
  /-- The counters on a line that is written over again and again. -/
  | status (stats : Statistics)
  /-- Makes the line of counters blank. -/
  | blanking
  /-- The opportunities of one transaction. -/
  | opportunities (number : Nat) (time : TimeOfDay) (usdPrice : Float) (report : TxReport)
  | summary (stats : Statistics)

namespace Entry

def repeated (count : Nat) (c : Char) : String :=
  String.ofList (List.replicate count c)

def line (text : String) : String :=
  text ++ "\n"

def rule : String := line (repeated 52 '━')

def bannerText (socketUrl nodeUrl : String) (showAll : Bool) : String :=
  line "🔍 Detector de Oportunidades MEV" ++ rule
    ++ line ("🔌 WebSocket: " ++ socketUrl)
    ++ line ("🌐 HTTP RPC: " ++ nodeUrl)
    ++ line ("📋 Todas as transações: " ++ if showAll then "ATIVADO" else "DESATIVADO")
    ++ line "💡 Pressione Ctrl+C para encerrar" ++ rule

def sourceText : SnapshotSource → String
  | .status => ""
  | .content => line "ℹ️  txpool_status indisponível, contagens obtidas de txpool_content"
  | .unavailable => line "⚠️  Não foi possível obter o estado da mempool"

def snapshotText (snapshot : Snapshot) : String :=
  let block := match snapshot.block with
    | some number => " (bloco " ++ toString number ++ ")"
    | none => ""
  sourceText snapshot.source
    ++ line ("📊 Mempool inicial: " ++ toString snapshot.counts.pending ++ " pendentes, "
      ++ toString snapshot.counts.queued ++ " na fila" ++ block)

/-- The called function: its name, or else its selector. -/
def functionText (classified : ClassifiedTx) : String :=
  match classified.functionName?, classified.tx.selector? with
  | some name, _ => name
  | none, some selector => selector.text
  | none, none => "-"

def recipientText (tx : Transaction) : String :=
  (tx.recipient.map FixedBytes.text).getD "criação de contrato"

def transactionText (index : Nat) (report : TxReport) : String :=
  let tx := report.classified.tx
  line ("📦 Tx #" ++ toString index ++ " " ++ tx.hash.text ++ " → " ++ recipientText tx
    ++ " | " ++ Decimal.fixed 6 tx.value.toNative ++ " ETH | " ++ functionText report.classified
    ++ " | " ++ report.classified.tags.text
    ++ " | " ++ toString report.opportunities.length ++ " oportunidade(s)")

def statusText (stats : Statistics) : String :=
  "\r🔔 Tx #" ++ toString stats.notifications ++ " | Swaps: " ++ toString stats.swaps
    ++ " | ETH: " ++ toString stats.ethTransfers ++ " | Outras: " ++ toString stats.unknown
    ++ " | MEV: " ++ toString stats.opportunities

/-- The line of counters has at most this many characters to make blank. -/
def statusWidth : Nat := 100

def blankingText : String :=
  "\r" ++ repeated statusWidth ' ' ++ "\r"

def detailText (name : String) (value : DetailValue) : String :=
  line ("      - " ++ name ++ ": " ++ value.display)

def detailsText (details : Details) : String :=
  if details.isEmpty then ""
  else line "   📋 Detalhes:"
    ++ String.join (details.map fun (name, value) => detailText name value)

def opportunityText (usdPrice : Float) (found : Opportunity) : String :=
  line "" ++ line ("   📊 Tipo: " ++ found.kind.name)
    ++ line ("   💰 Lucro estimado: " ++ Decimal.fixed 6 found.netProfit ++ " ETH (~$"
      ++ Decimal.fixed 2 (found.netProfit * usdPrice) ++ ")")
    ++ line ("   📈 Confiança: " ++ Decimal.fixed 0 (found.confidence * 100.0) ++ "%")
    ++ detailsText found.details

def opportunitiesText (number : Nat) (time : TimeOfDay) (usdPrice : Float) (report : TxReport) :
    String :=
  line "" ++ line (repeated 80 '=')
    ++ line ("🔍 OPORTUNIDADE MEV #" ++ toString number ++ " [" ++ time.text ++ "]")
    ++ line ("   Transação: " ++ report.classified.tx.hash.text)
    ++ line ("   " ++ repeated 76 '-')
    ++ String.join (report.opportunities.map (opportunityText usdPrice))
    ++ line "" ++ line "   ⚠️  Estimativa heurística, uso apenas educacional"
    ++ line (repeated 80 '=')

def counterText (label : String) (count : Nat) : String :=
  line ("   " ++ label ++ ": " ++ toString count)

def rateText (label : String) : Option Float → String
  | some rate => line ("   " ++ label ++ ": " ++ Decimal.fixed 2 (rate * 100.0) ++ "%")
  | none => ""

def summaryText (stats : Statistics) : String :=
  line "" ++ line "📊 Resumo:"
    ++ counterText "Notificações recebidas" stats.notifications
    ++ counterText "Transações analisadas" stats.analyzed
    ++ counterText "- Swaps" stats.swaps
    ++ counterText "- Transferências de ETH" stats.ethTransfers
    ++ counterText "- Liquidações" stats.liquidations
    ++ counterText "- Operações de liquidez" stats.liquidityOps
    ++ counterText "- Desconhecidas" stats.unknown
    ++ counterText "Não encontradas (já mineradas)" stats.notFound
    ++ counterText "Erros de análise" stats.analysisErrors
    ++ counterText "Erros de detectores" stats.detectorErrors
    ++ line ("   Oportunidades MEV: " ++ toString stats.opportunities ++ " em "
      ++ toString stats.withOpportunities ++ " transação(ões)")
    ++ rateText "Taxa de detecção" stats.detectionRate?
    ++ rateText "Taxa entre swaps" stats.swapDetectionRate?

def text : Entry → String
  | banner socketUrl nodeUrl showAll => bannerText socketUrl nodeUrl showAll
  | snapshot content => snapshotText content
  | subscribed subscription =>
    line ("✅ Inscrito em newPendingTransactions (" ++ subscription ++ ")")
      ++ line "💡 Aguardando transações..."
  | transaction index report => transactionText index report
  | status counters => statusText counters
  | blanking => blankingText
  | opportunities number time usdPrice report => opportunitiesText number time usdPrice report
  | summary stats => summaryText stats

end Entry

end Report

end MempoolWatch
