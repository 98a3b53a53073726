import Mathlib.Init

/-!
# The program image

The encoders of `SLC3_2.sv` and the words `Instantiateram.sv` holds in its
`case (address)`.  `memory_contents.sv` has the same words `0` to `172`.
-/

namespace ECE385.Slc3

namespace Encode

def op_ADD : BitVec 4 := 0b0001#4
def op_AND : BitVec 4 := 0b0101#4
def op_NOT : BitVec 4 := 0b1001#4
def op_BR : BitVec 4 := 0b0000#4
def op_JMP : BitVec 4 := 0b1100#4
def op_JSR : BitVec 4 := 0b0100#4
def op_LDR : BitVec 4 := 0b0110#4
def op_STR : BitVec 4 := 0b0111#4
def op_PSE : BitVec 4 := 0b1101#4

def NO_OP : BitVec 16 := 0#16

def R0 : BitVec 3 := 0b000#3
def R1 : BitVec 3 := 0b001#3
def R2 : BitVec 3 := 0b010#3
def R3 : BitVec 3 := 0b011#3
def R4 : BitVec 3 := 0b100#3
def R5 : BitVec 3 := 0b101#3
def R6 : BitVec 3 := 0b110#3
def R7 : BitVec 3 := 0b111#3

def p : BitVec 3 := 0b001#3
def z : BitVec 3 := 0b010#3
def n : BitVec 3 := 0b100#3
def np : BitVec 3 := 0b101#3
def nz : BitVec 3 := 0b110#3
def nzp : BitVec 3 := 0b111#3

def outHEX : Int := -1
def inSW : Int := -1

def opCLR (dr : BitVec 3) : BitVec 16 := op_AND ++ dr ++ dr ++ 1#1 ++ 0#5

def opAND (dr sr1 sr2 : BitVec 3) : BitVec 16 := op_AND ++ dr ++ sr1 ++ 0#3 ++ sr2

def opADD (dr sr1 sr2 : BitVec 3) : BitVec 16 := op_ADD ++ dr ++ sr1 ++ 0#3 ++ sr2

def opADDi (dr sr : BitVec 3) (imm5 : Int) : BitVec 16 :=
  op_ADD ++ dr ++ sr ++ 1#1 ++ BitVec.ofInt 5 imm5

def opINC (dr : BitVec 3) : BitVec 16 := op_ADD ++ dr ++ dr ++ 1#1 ++ 1#5

def opDEC (dr : BitVec 3) : BitVec 16 := op_ADD ++ dr ++ dr ++ 1#1 ++ BitVec.ofInt 5 (-1)

def opNOT (dr sr : BitVec 3) : BitVec 16 := op_NOT ++ dr ++ sr ++ 0b000001#6

def opBR (condition : BitVec 3) (pcOffset9 : Int) : BitVec 16 :=
  op_BR ++ condition ++ BitVec.ofInt 9 pcOffset9

def opJMP (baseR : BitVec 3) : BitVec 16 := op_JMP ++ 0#3 ++ baseR ++ 0#6

def opRET : BitVec 16 := op_JMP ++ 0#3 ++ R7 ++ 0#6

def opJSR (pcOffset11 : Int) : BitVec 16 := op_JSR ++ 1#1 ++ BitVec.ofInt 11 pcOffset11

def opLDR (dr baseR : BitVec 3) (offset6 : Int) : BitVec 16 :=
  op_LDR ++ dr ++ baseR ++ BitVec.ofInt 6 offset6

def opSTR (sr baseR : BitVec 3) (offset6 : Int) : BitVec 16 :=
  op_STR ++ sr ++ baseR ++ BitVec.ofInt 6 offset6

def opPSE (ledVect12 : BitVec 12) : BitVec 16 := op_PSE ++ ledVect12

end Encode

open Encode in
/-- Words `0` to `172`. -/
def programWords : List (BitVec 16) :=
  [
    -- 0: jump to the program chosen on the switches
    opCLR R0, opLDR R1 R0 inSW, opJMP R1,
    -- 3: basic I/O test 1
    opLDR R1 R0 inSW, opSTR R1 R0 outHEX, opBR nzp (-3),
    -- 6: basic I/O test 2
    opPSE 0x801#12, opLDR R1 R0 inSW, opSTR R1 R0 outHEX, opPSE 0xC02#12, opBR nzp (-4),
    -- 11: basic I/O test 3 (self-modifying code)
    opPSE 0x801#12, opJSR 0, opLDR R2 R7 3, opLDR R1 R0 inSW, opSTR R1 R0 outHEX, opPSE 0xC02#12,
    opINC R2, opSTR R2 R7 3, opBR nzp (-6),
    -- 20: XOR test
    opCLR R0, opPSE 0x801#12, opLDR R1 R0 inSW, opPSE 0x802#12, opLDR R2 R0 inSW, opNOT R3 R1,
    opAND R3 R3 R2, opNOT R3 R3, opNOT R4 R2, opAND R4 R4 R1, opNOT R4 R4, opAND R3 R3 R4,
    opNOT R3 R3, opSTR R3 R0 outHEX, opPSE 0x405#12, opBR nzp (-15), NO_OP, NO_OP, NO_OP, NO_OP,
    NO_OP, NO_OP,
    -- 42: run once test
    opCLR R0, opCLR R1, opJSR 0, opSTR R1 R0 outHEX, opPSE 0x401#12, opINC R1, opRET,
    -- 49: multiplier program
    opCLR R0, opJSR 0, opLDR R3 R7 22, opCLR R4, opCLR R5, opPSE 0x801#12, opLDR R1 R0 inSW,
    opPSE 0x802#12, opLDR R2 R0 inSW, opADD R5 R5 R5, opAND R7 R3 R1, opBR z 1, opADD R5 R5 R2,
    opADDi R4 R4 0, opBR p 2, opNOT R5 R5, opINC R5, opINC R4, opADD R1 R1 R1, opADDi R7 R4 (-8),
    opBR n (-12), opSTR R5 R0 outHEX, opPSE 0x403#12, opBR nzp (-21), 0x0080#16,
    -- 74: data for bubble sort
    0x00ef#16, 0x001b#16, 0x0001#16, 0x008c#16, 0x00db#16, 0x00fa#16, 0x0047#16, 0x0046#16,
    0x001f#16, 0x000d#16, 0x00b8#16, 0x0003#16, 0x006b#16, 0x004e#16, 0x00f8#16, 0x0007#16,
    -- 90: bubble sort, menu
    opCLR R0, opJSR 0, opADDi R6 R7 (-16), opADDi R6 R6 (-2), opPSE 0x3FF#12, opLDR R1 R0 inSW,
    opBR z (-3), opDEC R1, opBR np 2, opJSR 9, opBR nzp (-7), opDEC R1, opBR np 2, opJSR 15,
    opBR nzp (-11), opDEC R1, opBR np (-13), opJSR 29, opBR nzp (-15),
    -- 109: entry function
    opCLR R1, opSTR R1 R0 outHEX, opPSE 0xC01#12, opLDR R2 R0 inSW, opADD R5 R6 R1,
    opSTR R2 R5 0, opINC R1, opADDi R3 R1 (-16), opBR n (-8), opRET,
    -- 119: sort function
    opADDi R1 R0 (-16), opADDi R2 R0 1, opADD R3 R6 R2, opLDR R4 R3 (-1), opLDR R5 R3 0,
    opNOT R5 R5, opADDi R5 R5 1, opADD R5 R4 R5, opBR nz 3, opLDR R5 R3 0, opSTR R5 R3 (-1),
    opSTR R4 R3 0, opINC R2, opADD R3 R1 R2, opBR n (-13), opINC R1, opBR n (-16), opRET,
    -- 137: display function
    opCLR R1, opADD R4 R7 R0, opJSR 0, opADD R5 R7 R0, opADD R7 R4 R0, opLDR R3 R5 15,
    opADDi R2 R0 8, opADD R2 R2 R2, opADD R4 R6 R1, opLDR R4 R4 0, opSTR R4 R0 outHEX,
    opPSE 0x802#12, opADD R3 R3 R2, opSTR R3 R5 8, opINC R1, opADDi R4 R1 (-16), opBR n (-9),
    opRET, opPSE 0x802#12,
    -- 156: auto counter program
    opCLR R0, opCLR R1, opCLR R2, opCLR R3, opJSR 0, opLDR R1 R7 12, opLDR R2 R7 13, opDEC R1,
    opBR z 1, opBR nzp (-3), opDEC R2, opBR z 2, opLDR R1 R7 12, opBR nzp (-7),
    opSTR R3 R0 outHEX, opINC R3, opBR nzp (-12) ]

/-- `case (address)` of `Instantiateram`: the program, the two constants of the auto
counter, and zero elsewhere. -/
def initData (address : BitVec 16) : BitVec 16 :=
  (programWords ++ [0xFFFF#16, 5#16]).getD address.toNat 0x0000#16

end ECE385.Slc3
