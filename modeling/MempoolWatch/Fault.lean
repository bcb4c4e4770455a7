/-! What can go wrong, by the part of the system that failed, and the wording
shown to the operator. Only the loss of the subscription ends a run. -/
namespace MempoolWatch

inductive Fault
  | rpc (text : String)
  | decoding (text : String)
  | encoding (text : String)
  | validation (text : String)
  | timeout (text : String)
  | notFound (text : String)
  | connection (text : String)
  | subscription (text : String)
  | configuration (text : String)
  | other (text : String)
deriving DecidableEq

namespace Fault

def message : Fault → String
  | rpc text => "Erro de RPC: " ++ text
  | decoding text => "Erro de decodificação: " ++ text
  | encoding text => "Erro de codificação: " ++ text
  | validation text => "Erro de validação: " ++ text
  | timeout text => "Timeout: " ++ text
  | notFound text => "Não encontrado: " ++ text
  | connection text => "Erro de conexão: " ++ text
  | subscription text => "Erro de inscrição: " ++ text
  | configuration text => "Erro de configuração: " ++ text
  | other text => text

/-- The subscription is gone, and with it the source of transactions. -/
def isFatal : Fault → Bool
  | connection _ | subscription _ => true
  | _ => false

end Fault

end MempoolWatch
