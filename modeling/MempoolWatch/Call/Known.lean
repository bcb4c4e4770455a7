import MempoolWatch.Abi.Param
import MempoolWatch.Tag

/-! The calls that are recognised: exchanges of tokens, liquidations and changes
of liquidity, each with its parameters and the place of the traded amount among
them. -/
namespace MempoolWatch

/-- Where a call carries the traded amount. -/
inductive AmountField
  /-- In the value of the transaction and not in the arguments. -/
  | nativeValue
  | param (index : Nat)
  | tupleField (param field : Nat)
  | largestOf (indexes : List Nat)
deriving DecidableEq

structure KnownCall where
  selector : Selector
  name : String
  tag : Tag
  params : List Abi.Param
  amount : AmountField

namespace KnownCall

private def selectorOf (a b c d : UInt8) : Selector :=
  ⟨[a, b, c, d], rfl⟩

private def word : Abi.Param := .uint 256

/-- Two amounts, the path of tokens, the recipient and the deadline. -/
def tokensIn : List Abi.Param :=
  [word, word, .array .address, .address, word]

/-- One amount, the path of tokens, the recipient and the deadline. -/
def nativeIn : List Abi.Param :=
  [word, .array .address, .address, word]

/-- Both tokens, the fee, the recipient, the deadline, two amounts and the price limit. -/
def singlePool : List Abi.Param :=
  [.tuple [.address, .address, .uint 24, .address, word, word, word, .uint 160]]

/-- The path of pools, the recipient, the deadline and two amounts. -/
def poolPath : List Abi.Param :=
  [.tuple [.bytes, .address, word, word, word]]

def pairSwap : List Abi.Param :=
  [word, word, .address, .bytes]

/-- The borrower, the repaid amount and the collateral. -/
def borrowLiquidation : List Abi.Param :=
  [.address, word, .address]

/-- Collateral, debt, user, the covered amount and the form of the payment. -/
def debtLiquidation : List Abi.Param :=
  [.address, .address, .address, word, .bool]

def liquidityOfTokens : List Abi.Param :=
  [.address, .address, word, word, word, word, .address, word]

def liquidityOfNative : List Abi.Param :=
  [.address, word, word, word, .address, word]

def positionMint : List Abi.Param :=
  [.tuple [.address, .address, .uint 24, .int 24, .int 24, word, word, word, word, .address, word]]

def positionIncrease : List Abi.Param :=
  [.tuple [word, word, word, word, word, word]]

/-- All recognised calls. No selector occurs twice. -/
def all : List KnownCall := [
  ⟨selectorOf 0x7f 0xf3 0x6a 0xb5, "swapExactETHForTokens", .swap, nativeIn, .nativeValue⟩,
  ⟨selectorOf 0xfb 0x3b 0xdb 0x41, "swapETHForExactTokens", .swap, nativeIn, .nativeValue⟩,
  ⟨selectorOf 0x18 0xcb 0xaf 0xe5, "swapExactTokensForETH", .swap, tokensIn, .param 0⟩,
  ⟨selectorOf 0x4a 0x25 0xd9 0x4a, "swapTokensForExactETH", .swap, tokensIn, .param 1⟩,
  ⟨selectorOf 0x38 0xed 0x17 0x39, "swapExactTokensForTokens", .swap, tokensIn, .param 0⟩,
  ⟨selectorOf 0x88 0x03 0xdb 0xee, "swapTokensForExactTokens", .swap, tokensIn, .param 1⟩,
  ⟨selectorOf 0x41 0x4b 0xf3 0x89, "exactInputSingle", .swap, singlePool, .tupleField 0 5⟩,
  ⟨selectorOf 0xc0 0x4b 0x8d 0x59, "exactInput", .swap, poolPath, .tupleField 0 3⟩,
  ⟨selectorOf 0xdb 0x3e 0x21 0x98, "exactOutputSingle", .swap, singlePool, .tupleField 0 6⟩,
  ⟨selectorOf 0xf2 0x8c 0x04 0x98, "exactOutput", .swap, poolPath, .tupleField 0 4⟩,
  ⟨selectorOf 0x02 0x2c 0x0d 0x9f, "swap", .swap, pairSwap, .largestOf [0, 1]⟩,
  ⟨selectorOf 0x29 0x86 0xc0 0xe5, "liquidateBorrow", .liquidation, borrowLiquidation, .param 1⟩,
  ⟨selectorOf 0xea 0x8a 0x1a 0xf0, "liquidationCall", .liquidation, debtLiquidation, .param 3⟩,
  ⟨selectorOf 0xdb 0x00 0x5a 0x1c, "liquidate", .liquidation, [], .nativeValue⟩,
  ⟨selectorOf 0xe8 0xe3 0x37 0x00, "addLiquidity", .liquidityOp, liquidityOfTokens, .param 2⟩,
  ⟨selectorOf 0xf3 0x05 0xd7 0x19, "addLiquidityETH", .liquidityOp, liquidityOfNative, .param 1⟩,
  ⟨selectorOf 0x88 0x31 0x64 0x56, "mint", .liquidityOp, positionMint, .tupleField 0 5⟩,
  ⟨selectorOf 0x21 0x9f 0x5d 0x17, "increaseLiquidity", .liquidityOp, positionIncrease,
    .tupleField 0 1⟩]

def find? (selector : Selector) : Option KnownCall :=
  all.find? (·.selector = selector)

end KnownCall

end MempoolWatch
