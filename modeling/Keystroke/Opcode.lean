/-!
# The instruction set

Every command, in the order of its number. The number is what programs store, so the order never
changes. A command's specification gives its name, the argument it takes and where it may stand.
-/

namespace Keystroke

/-- What kind of argument a command takes. -/
inductive ArgumentKind where
  /-- No argument. -/
  | none
  /-- A variable, register or stack register. -/
  | anyVariable
  /-- Like `anyVariable`, but a real number must be there. -/
  | realVariable
  /-- The name of a variable. -/
  | named
  /-- The name of a matrix variable. -/
  | matrix
  /-- The name of a real variable. -/
  | realName
  /-- A local or global label. -/
  | label
  /-- A global label. -/
  | program
  | upTo9
  | upTo11
  | upTo99
  | count
  | other
  | menuKey
  | customKey
  /-- A text literal of any length. -/
  | longText
deriving DecidableEq, Repr, Inhabited

/-- The commands. -/
inductive Opcode where
  | clearX
  | enter
  | exchangeXY
  | rollDown
  | negate
  | divide
  | multiply
  | subtract
  | add
  | lastX
  | silentOff
  | silentOn
  | sin
  | cos
  | tan
  | asin
  | acos
  | atan
  | log
  | tenToX
  | ln
  | expX
  | squareRoot
  | square
  | reciprocal
  | power
  | percent
  | pi
  | complex
  | store
  | storeDivide
  | storeMultiply
  | storeSubtract
  | storeAdd
  | recall
  | recallDivide
  | recallMultiply
  | recallSubtract
  | recallAdd
  | fixed
  | scientific
  | engineering
  | allDigits
  | null
  | alphaStore
  | alphaRecall
  | clearAlpha
  | degrees
  | radians
  | gradians
  | rectangular
  | polar
  | size
  | quiet
  | complexResults
  | realResults
  | keyAssignments
  | localLabels
  | radixDot
  | radixComma
  | clearSums
  | clearProgram
  | clearVariable
  | clearStack
  | clearRegisters
  | deleteLines
  | clearKeys
  | clearDisplay
  | clearMenu
  | clearAll
  | toDegrees
  | toRadians
  | toHours
  | toHoursMinutesSeconds
  | toRectangular
  | toPolar
  | integerPart
  | fractionalPart
  | round
  | absolute
  | sign
  | modulo
  | setFlag
  | clearFlag
  | isFlagSet
  | isFlagClear
  | isFlagSetThenClear
  | isFlagClearThenClear
  | combinations
  | permutations
  | factorial
  | gamma
  | random
  | seed
  | label
  | returnFromCall
  | input
  | view
  | viewAlpha
  | execute
  | prompt
  | pause
  | incrementSkipGreater
  | decrementSkipEqual
  | appendIntegerPart
  | xToAlpha
  | alphaGraph
  | pixel
  | beep
  | tone
  | menuVariable
  | variableMenu
  | getKey
  | menu
  | keyGoto
  | keyExecute
  | isXZero
  | isXNonzero
  | isXNegative
  | isXPositive
  | isXAtMostZero
  | isXAtLeastZero
  | isXEqualY
  | isXUnequalY
  | isXBelowY
  | isXAboveY
  | isXAtMostY
  | isXAtLeastY
  | printSums
  | printProgram
  | printVariable
  | printStack
  | printAlpha
  | printX
  | printUser
  | printLines
  | advancePaper
  | printDisplay
  | delay
  | printerOn
  | printerOff
  | printManual
  | printNormal
  | printTrace
  | sumAdd
  | sumSubtract
  | goto
  | endOfProgram
  | number
  | shortText
  | run
  | singleStep
  | gotoLine
  | gotoNewProgram
  | stop
  | newMatrix
  | rollUp
  | isReal
  | isComplex
  | isText
  | isMatrix
  | dimensions
  | assign
  | assignKey
  | assign01
  | assign02
  | assign03
  | assign04
  | assign05
  | assign06
  | assign07
  | assign08
  | assign09
  | assign10
  | assign11
  | assign12
  | assign13
  | assign14
  | assign15
  | assign16
  | assign17
  | assign18
  | turnOn
  | turnOff
  | key1Goto
  | key2Goto
  | key3Goto
  | key4Goto
  | key5Goto
  | key6Goto
  | key7Goto
  | key8Goto
  | key9Goto
  | key1Execute
  | key2Execute
  | key3Execute
  | key4Execute
  | key5Execute
  | key6Execute
  | key7Execute
  | key8Execute
  | key9Execute
  | menuExecute
  | menuStore
  | sumRegisters
  | whichSumRegisters
  | clearMessage
  | acosh
  | alphaLength
  | allSums
  | bitAnd
  | alphaOff
  | alphaOn
  | alphaRotate
  | alphaShift
  | asinh
  | atanh
  | alphaToX
  | baseAdd
  | baseSubtract
  | baseMultiply
  | baseDivide
  | baseNegate
  | bestFit
  | binaryMode
  | isBitSet
  | backStep
  | correlation
  | cosh
  | crossProduct
  | customMenu
  | decimalMode
  | deleteRow
  | determinant
  | dimension
  | dotProduct
  | editX
  | editNamed
  | exitAll
  | exponentialFit
  | expXMinusOne
  | forecastX
  | forecastY
  | frobeniusNorm
  | getMatrix
  | growMode
  | hexMode
  | addHours
  | subtractHours
  | rowDown
  | rowUp
  | indexMatrix
  | insertRow
  | integrate
  | invert
  | columnRight
  | columnLeft
  | linearFit
  | linearSums
  | lnOnePlusX
  | logarithmicFit
  | mean
  | bitNot
  | octalMode
  | recallElementAtCursor
  | bitOr
  | solveProgram
  | integrateProgram
  | alphaPosition
  | putMatrix
  | powerFit
  | recallElement
  | recallCursor
  | rowNorm
  | rotateBits
  | rowSum
  | exchangeRows
  | standardDeviation
  | sinh
  | slope
  | solve
  | storeElement
  | storeCursor
  | sum
  | tanh
  | transpose
  | unitVector
  | weightedMean
  | wrapMode
  | exchangeX
  | bitXor
  | yIntercept
  | toDecimal
  | toOctal
  | cursorLeft
  | cursorUp
  | cursorDown
  | cursorRight
  | percentChange
  | simultaneousEquations
  | coefficientMatrix
  | constantMatrix
  | solutionMatrix
  | gotoRow
  | gotoColumn
  | hexDigits
  | clearAllMenu
  | solveProgramMenu
  | integrateProgramMenu
  | menuStoreSecond
  | menuSolve
  | maximum
  | minimum
  | findElement
  | externalFunction
  | openFile
  | closeFile
  | readProgram
  | writeProgram
  | getXY
  | putXY
  | clearFileProgram
  | clearFileData
  | appendFile
  | getNumber
  | putNumber
  | getComplex
  | putComplex
  | deleteFile
  | drop
  | acceleration
  | location
  | heading
  | alphaDate
  | alarmCatalog
  | alarmNow
  | alphaTime
  | alphaTime24
  | clock12
  | clock24
  | clockTime
  | clockTimeDate
  | clock
  | correctTime
  | date
  | datePlus
  | daysBetween
  | dayMonthYear
  | dayOfWeek
  | monthDayYear
  | recallAccuracy
  | recallStopwatch
  | runStopwatch
  | setAccuracy
  | setDate
  | setTime
  | setStopwatch
  | stopStopwatch
  | stopwatch
  | timePlusX
  | time
  | setAlarm
  | clearAlarmByAlpha
  | clearAlarmByX
  | clearAlarms
  | recallAlarm
  | stopwatchPoint
  | numberTest
  | storeLocal
  | singleStepUp
  | singleStepRight
  | wordSize
  | whichWordSize
  | yearMonthDay
  | signedBase
  | wrappingBase
  | resetBase
  | function
  | localFourLevel
  | localManyLevel
  | fourLevel
  | manyLevel
  | returnYes
  | returnNo
  | returnError
  | newList
  | longText
  | duplicate
deriving DecidableEq, Repr, Inhabited

namespace Opcode

/-- What the instruction set says about a command. -/
structure Specification where
  name : String
  argument : ArgumentKind
  /-- Left out of catalogs and not read from text. -/
  hidden : Bool := false
  /-- Cannot be entered into a program. -/
  notInPrograms : Bool := false
  /-- Makes sense only inside a program. -/
  onlyInPrograms : Bool := false
  /-- Executes at once even while a program is being entered. -/
  immediate : Bool := false
  unshown : Bool := false

/-- The specification of every command. -/
def specification : Opcode → Specification
  | .clearX => { name := "CLX", argument := .none }
  | .enter => { name := "ENTER", argument := .none }
  | .exchangeXY => { name := "X<>Y", argument := .none }
  | .rollDown => { name := "R↓", argument := .none }
  | .negate => { name := "+/-", argument := .none }
  | .divide => { name := "÷", argument := .none }
  | .multiply => { name := "×", argument := .none }
  | .subtract => { name := "-", argument := .none }
  | .add => { name := "+", argument := .none }
  | .lastX => { name := "LASTX", argument := .none }
  | .silentOff => { name := "", argument := .none, hidden := true, unshown := true }
  | .silentOn => { name := "", argument := .none, hidden := true, unshown := true }
  | .sin => { name := "SIN", argument := .none }
  | .cos => { name := "COS", argument := .none }
  | .tan => { name := "TAN", argument := .none }
  | .asin => { name := "ASIN", argument := .none }
  | .acos => { name := "ACOS", argument := .none }
  | .atan => { name := "ATAN", argument := .none }
  | .log => { name := "LOG", argument := .none }
  | .tenToX => { name := "10^X", argument := .none }
  | .ln => { name := "LN", argument := .none }
  | .expX => { name := "E^X", argument := .none }
  | .squareRoot => { name := "SQRT", argument := .none }
  | .square => { name := "X^2", argument := .none }
  | .reciprocal => { name := "1/X", argument := .none }
  | .power => { name := "Y^X", argument := .none }
  | .percent => { name := "%", argument := .none }
  | .pi => { name := "PI", argument := .none }
  | .complex => { name := "COMPLEX", argument := .none }
  | .store => { name := "STO", argument := .anyVariable }
  | .storeDivide => { name := "STO÷", argument := .anyVariable }
  | .storeMultiply => { name := "STO×", argument := .anyVariable }
  | .storeSubtract => { name := "STO-", argument := .anyVariable }
  | .storeAdd => { name := "STO+", argument := .anyVariable }
  | .recall => { name := "RCL", argument := .anyVariable }
  | .recallDivide => { name := "RCL÷", argument := .anyVariable }
  | .recallMultiply => { name := "RCL×", argument := .anyVariable }
  | .recallSubtract => { name := "RCL-", argument := .anyVariable }
  | .recallAdd => { name := "RCL+", argument := .anyVariable }
  | .fixed => { name := "FIX", argument := .upTo11 }
  | .scientific => { name := "SCI", argument := .upTo11 }
  | .engineering => { name := "ENG", argument := .upTo11 }
  | .allDigits => { name := "ALL", argument := .none }
  | .null => { name := "NULL", argument := .none, hidden := true }
  | .alphaStore => { name := "ASTO", argument := .anyVariable }
  | .alphaRecall => { name := "ARCL", argument := .anyVariable }
  | .clearAlpha => { name := "CLA", argument := .none }
  | .degrees => { name := "DEG", argument := .none }
  | .radians => { name := "RAD", argument := .none }
  | .gradians => { name := "GRAD", argument := .none }
  | .rectangular => { name := "RECT", argument := .none }
  | .polar => { name := "POLAR", argument := .none }
  | .size => { name := "SIZE", argument := .count }
  | .quiet => { name := "QUIET", argument := .none, immediate := true }
  | .complexResults => { name := "CPXRES", argument := .none }
  | .realResults => { name := "REALRES", argument := .none }
  | .keyAssignments => { name := "KEYASN", argument := .none }
  | .localLabels => { name := "LCLBL", argument := .none }
  | .radixDot => { name := "RDX.", argument := .none }
  | .radixComma => { name := "RDX,", argument := .none }
  | .clearSums => { name := "CLΣ", argument := .none }
  | .clearProgram => { name := "CLP", argument := .program }
  | .clearVariable => { name := "CLV", argument := .named }
  | .clearStack => { name := "CLST", argument := .none }
  | .clearRegisters => { name := "CLRG", argument := .none }
  | .deleteLines => { name := "DEL", argument := .count, onlyInPrograms := true, immediate := true }
  | .clearKeys => { name := "CLKEYS", argument := .none }
  | .clearDisplay => { name := "CLLCD", argument := .none }
  | .clearMenu => { name := "CLMENU", argument := .none }
  | .clearAll => { name := "CLALL", argument := .none, immediate := true }
  | .toDegrees => { name := "→DEG", argument := .none }
  | .toRadians => { name := "→RAD", argument := .none }
  | .toHours => { name := "→HR", argument := .none }
  | .toHoursMinutesSeconds => { name := "→HMS", argument := .none }
  | .toRectangular => { name := "→REC", argument := .none }
  | .toPolar => { name := "→POL", argument := .none }
  | .integerPart => { name := "IP", argument := .none }
  | .fractionalPart => { name := "FP", argument := .none }
  | .round => { name := "RND", argument := .none }
  | .absolute => { name := "ABS", argument := .none }
  | .sign => { name := "SIGN", argument := .none }
  | .modulo => { name := "MOD", argument := .none }
  | .setFlag => { name := "SF", argument := .upTo99 }
  | .clearFlag => { name := "CF", argument := .upTo99 }
  | .isFlagSet => { name := "FS?", argument := .upTo99 }
  | .isFlagClear => { name := "FC?", argument := .upTo99 }
  | .isFlagSetThenClear => { name := "FS?C", argument := .upTo99 }
  | .isFlagClearThenClear => { name := "FC?C", argument := .upTo99 }
  | .combinations => { name := "COMB", argument := .none }
  | .permutations => { name := "PERM", argument := .none }
  | .factorial => { name := "N!", argument := .none }
  | .gamma => { name := "GAMMA", argument := .none }
  | .random => { name := "RAN", argument := .none }
  | .seed => { name := "SEED", argument := .none }
  | .label => { name := "LBL", argument := .other, onlyInPrograms := true }
  | .returnFromCall => { name := "RTN", argument := .none }
  | .input => { name := "INPUT", argument := .anyVariable, onlyInPrograms := true }
  | .view => { name := "VIEW", argument := .anyVariable }
  | .viewAlpha => { name := "AVIEW", argument := .none }
  | .execute => { name := "XEQ", argument := .label }
  | .prompt => { name := "PROMPT", argument := .none }
  | .pause => { name := "PSE", argument := .none }
  | .incrementSkipGreater => { name := "ISG", argument := .realVariable }
  | .decrementSkipEqual => { name := "DSE", argument := .realVariable }
  | .appendIntegerPart => { name := "AIP", argument := .none }
  | .xToAlpha => { name := "XTOA", argument := .none }
  | .alphaGraph => { name := "AGRAPH", argument := .none }
  | .pixel => { name := "PIXEL", argument := .none }
  | .beep => { name := "BEEP", argument := .none }
  | .tone => { name := "TONE", argument := .upTo9 }
  | .menuVariable => { name := "MVAR", argument := .realName }
  | .variableMenu => { name := "VARMENU", argument := .program }
  | .getKey => { name := "GETKEY", argument := .none }
  | .menu => { name := "MENU", argument := .none, onlyInPrograms := true }
  | .keyGoto => { name := "KEYG", argument := .menuKey }
  | .keyExecute => { name := "KEYX", argument := .menuKey }
  | .isXZero => { name := "X=0?", argument := .none }
  | .isXNonzero => { name := "X≠0?", argument := .none }
  | .isXNegative => { name := "X<0?", argument := .none }
  | .isXPositive => { name := "X>0?", argument := .none }
  | .isXAtMostZero => { name := "X≤0?", argument := .none }
  | .isXAtLeastZero => { name := "X≥0?", argument := .none }
  | .isXEqualY => { name := "X=Y?", argument := .none }
  | .isXUnequalY => { name := "X≠Y?", argument := .none }
  | .isXBelowY => { name := "X<Y?", argument := .none }
  | .isXAboveY => { name := "X>Y?", argument := .none }
  | .isXAtMostY => { name := "X≤Y?", argument := .none }
  | .isXAtLeastY => { name := "X≥Y?", argument := .none }
  | .printSums => { name := "PRΣ", argument := .none }
  | .printProgram => { name := "PRP", argument := .program, immediate := true }
  | .printVariable => { name := "PRV", argument := .named }
  | .printStack => { name := "PRSTK", argument := .none }
  | .printAlpha => { name := "PRA", argument := .none }
  | .printX => { name := "PRX", argument := .none }
  | .printUser => { name := "PRUSR", argument := .none }
  | .printLines => { name := "LIST", argument := .count, immediate := true }
  | .advancePaper => { name := "ADV", argument := .none }
  | .printDisplay => { name := "PRLCD", argument := .none }
  | .delay => { name := "DELAY", argument := .none }
  | .printerOn => { name := "PRON", argument := .none }
  | .printerOff => { name := "PROFF", argument := .none }
  | .printManual => { name := "MAN", argument := .none }
  | .printNormal => { name := "NORM", argument := .none }
  | .printTrace => { name := "TRACE", argument := .none }
  | .sumAdd => { name := "Σ+", argument := .none }
  | .sumSubtract => { name := "Σ-", argument := .none }
  | .goto => { name := "GTO", argument := .label }
  | .endOfProgram => { name := "END", argument := .none }
  | .number => { name := "", argument := .none, hidden := true }
  | .shortText => { name := "", argument := .none, hidden := true }
  | .run => { name := "RUN", argument := .none, hidden := true }
  | .singleStep => { name := "SST", argument := .none }
  | .gotoLine => { name := "GTO .", argument := .other, immediate := true }
  | .gotoNewProgram => { name := "GTO ..", argument := .none, immediate := true }
  | .stop => { name := "STOP", argument := .none }
  | .newMatrix => { name := "NEWMAT", argument := .none }
  | .rollUp => { name := "R^", argument := .none }
  | .isReal => { name := "REAL?", argument := .none }
  | .isComplex => { name := "CPX?", argument := .none }
  | .isText => { name := "STR?", argument := .none }
  | .isMatrix => { name := "MAT?", argument := .none }
  | .dimensions => { name := "DIM?", argument := .none }
  | .assign => { name := "ASSIGN", argument := .named }
  | .assignKey => { name := "", argument := .customKey, hidden := true }
  | .assign01 => { name := "", argument := .other, hidden := true }
  | .assign02 => { name := "", argument := .other, hidden := true }
  | .assign03 => { name := "", argument := .other, hidden := true }
  | .assign04 => { name := "", argument := .other, hidden := true }
  | .assign05 => { name := "", argument := .other, hidden := true }
  | .assign06 => { name := "", argument := .other, hidden := true }
  | .assign07 => { name := "", argument := .other, hidden := true }
  | .assign08 => { name := "", argument := .other, hidden := true }
  | .assign09 => { name := "", argument := .other, hidden := true }
  | .assign10 => { name := "", argument := .other, hidden := true }
  | .assign11 => { name := "", argument := .other, hidden := true }
  | .assign12 => { name := "", argument := .other, hidden := true }
  | .assign13 => { name := "", argument := .other, hidden := true }
  | .assign14 => { name := "", argument := .other, hidden := true }
  | .assign15 => { name := "", argument := .other, hidden := true }
  | .assign16 => { name := "", argument := .other, hidden := true }
  | .assign17 => { name := "", argument := .other, hidden := true }
  | .assign18 => { name := "", argument := .other, hidden := true }
  | .turnOn => { name := "ON", argument := .none }
  | .turnOff => { name := "OFF", argument := .none }
  | .key1Goto => { name := "KEY 1 GTO", argument := .label, hidden := true }
  | .key2Goto => { name := "KEY 2 GTO", argument := .label, hidden := true }
  | .key3Goto => { name := "KEY 3 GTO", argument := .label, hidden := true }
  | .key4Goto => { name := "KEY 4 GTO", argument := .label, hidden := true }
  | .key5Goto => { name := "KEY 5 GTO", argument := .label, hidden := true }
  | .key6Goto => { name := "KEY 6 GTO", argument := .label, hidden := true }
  | .key7Goto => { name := "KEY 7 GTO", argument := .label, hidden := true }
  | .key8Goto => { name := "KEY 8 GTO", argument := .label, hidden := true }
  | .key9Goto => { name := "KEY 9 GTO", argument := .label, hidden := true }
  | .key1Execute => { name := "KEY 1 XEQ", argument := .label, hidden := true }
  | .key2Execute => { name := "KEY 2 XEQ", argument := .label, hidden := true }
  | .key3Execute => { name := "KEY 3 XEQ", argument := .label, hidden := true }
  | .key4Execute => { name := "KEY 4 XEQ", argument := .label, hidden := true }
  | .key5Execute => { name := "KEY 5 XEQ", argument := .label, hidden := true }
  | .key6Execute => { name := "KEY 6 XEQ", argument := .label, hidden := true }
  | .key7Execute => { name := "KEY 7 XEQ", argument := .label, hidden := true }
  | .key8Execute => { name := "KEY 8 XEQ", argument := .label, hidden := true }
  | .key9Execute => { name := "KEY 9 XEQ", argument := .label, hidden := true }
  | .menuExecute => { name := "", argument := .other, hidden := true }
  | .menuStore => { name := "STO", argument := .other, hidden := true }
  | .sumRegisters => { name := "ΣREG", argument := .upTo99 }
  | .whichSumRegisters => { name := "ΣREG?", argument := .none }
  | .clearMessage => { name := "CLD", argument := .none }
  | .acosh => { name := "ACOSH", argument := .none }
  | .alphaLength => { name := "ALENG", argument := .none }
  | .allSums => { name := "ALLΣ", argument := .none }
  | .bitAnd => { name := "AND", argument := .none }
  | .alphaOff => { name := "AOFF", argument := .none }
  | .alphaOn => { name := "AON", argument := .none }
  | .alphaRotate => { name := "AROT", argument := .none }
  | .alphaShift => { name := "ASHF", argument := .none }
  | .asinh => { name := "ASINH", argument := .none }
  | .atanh => { name := "ATANH", argument := .none }
  | .alphaToX => { name := "ATOX", argument := .none }
  | .baseAdd => { name := "BASE+", argument := .none }
  | .baseSubtract => { name := "BASE-", argument := .none }
  | .baseMultiply => { name := "BASE×", argument := .none }
  | .baseDivide => { name := "BASE÷", argument := .none }
  | .baseNegate => { name := "BASE+/-", argument := .none }
  | .bestFit => { name := "BEST", argument := .none }
  | .binaryMode => { name := "BINM", argument := .none }
  | .isBitSet => { name := "BIT?", argument := .none }
  | .backStep => { name := "BST", argument := .none }
  | .correlation => { name := "CORR", argument := .none }
  | .cosh => { name := "COSH", argument := .none }
  | .crossProduct => { name := "CROSS", argument := .none }
  | .customMenu => { name := "CUSTOM", argument := .none }
  | .decimalMode => { name := "DECM", argument := .none }
  | .deleteRow => { name := "DELR", argument := .none }
  | .determinant => { name := "DET", argument := .none }
  | .dimension => { name := "DIM", argument := .matrix }
  | .dotProduct => { name := "DOT", argument := .none }
  | .editX => { name := "EDIT", argument := .none }
  | .editNamed => { name := "EDITN", argument := .matrix }
  | .exitAll => { name := "EXITALL", argument := .none }
  | .exponentialFit => { name := "EXPF", argument := .none }
  | .expXMinusOne => { name := "E^X-1", argument := .none }
  | .forecastX => { name := "FCSTX", argument := .none }
  | .forecastY => { name := "FCSTY", argument := .none }
  | .frobeniusNorm => { name := "FNRM", argument := .none }
  | .getMatrix => { name := "GETM", argument := .none }
  | .growMode => { name := "GROW", argument := .none }
  | .hexMode => { name := "HEXM", argument := .none }
  | .addHours => { name := "HMS+", argument := .none }
  | .subtractHours => { name := "HMS-", argument := .none }
  | .rowDown => { name := "I+", argument := .none }
  | .rowUp => { name := "I-", argument := .none }
  | .indexMatrix => { name := "INDEX", argument := .matrix }
  | .insertRow => { name := "INSR", argument := .none }
  | .integrate => { name := "INTEG", argument := .realName }
  | .invert => { name := "INVRT", argument := .none }
  | .columnRight => { name := "J+", argument := .none }
  | .columnLeft => { name := "J-", argument := .none }
  | .linearFit => { name := "LINF", argument := .none }
  | .linearSums => { name := "LINΣ", argument := .none }
  | .lnOnePlusX => { name := "LN1+X", argument := .none }
  | .logarithmicFit => { name := "LOGF", argument := .none }
  | .mean => { name := "MEAN", argument := .none }
  | .bitNot => { name := "NOT", argument := .none }
  | .octalMode => { name := "OCTM", argument := .none }
  | .recallElementAtCursor => { name := "OLD", argument := .none }
  | .bitOr => { name := "OR", argument := .none }
  | .solveProgram => { name := "PGMSLV", argument := .program }
  | .integrateProgram => { name := "PGMINT", argument := .program }
  | .alphaPosition => { name := "POSA", argument := .none }
  | .putMatrix => { name := "PUTM", argument := .none }
  | .powerFit => { name := "PWRF", argument := .none }
  | .recallElement => { name := "RCLEL", argument := .none }
  | .recallCursor => { name := "RCLIJ", argument := .none }
  | .rowNorm => { name := "RNRM", argument := .none }
  | .rotateBits => { name := "ROTXY", argument := .none }
  | .rowSum => { name := "RSUM", argument := .none }
  | .exchangeRows => { name := "R<>R", argument := .none }
  | .standardDeviation => { name := "SDEV", argument := .none }
  | .sinh => { name := "SINH", argument := .none }
  | .slope => { name := "SLOPE", argument := .none }
  | .solve => { name := "SOLVE", argument := .realName }
  | .storeElement => { name := "STOEL", argument := .none }
  | .storeCursor => { name := "STOIJ", argument := .none }
  | .sum => { name := "SUM", argument := .none }
  | .tanh => { name := "TANH", argument := .none }
  | .transpose => { name := "TRANS", argument := .none }
  | .unitVector => { name := "UVEC", argument := .none }
  | .weightedMean => { name := "WMEAN", argument := .none }
  | .wrapMode => { name := "WRAP", argument := .none }
  | .exchangeX => { name := "X<>", argument := .anyVariable }
  | .bitXor => { name := "XOR", argument := .none }
  | .yIntercept => { name := "YINT", argument := .none }
  | .toDecimal => { name := "→DEC", argument := .none }
  | .toOctal => { name := "→OCT", argument := .none }
  | .cursorLeft => { name := "←", argument := .none }
  | .cursorUp => { name := "^", argument := .none }
  | .cursorDown => { name := "↓", argument := .none }
  | .cursorRight => { name := "→", argument := .none }
  | .percentChange => { name := "%CH", argument := .none }
  | .simultaneousEquations => { name := "SIMQ", argument := .count, hidden := true, notInPrograms := true }
  | .coefficientMatrix => { name := "MATA", argument := .none, hidden := true, notInPrograms := true }
  | .constantMatrix => { name := "MATB", argument := .none, hidden := true, notInPrograms := true }
  | .solutionMatrix => { name := "MATX", argument := .none, hidden := true, notInPrograms := true }
  | .gotoRow => { name := "GOTO Row", argument := .count, hidden := true }
  | .gotoColumn => { name := "GOTO Column", argument := .count, hidden := true }
  | .hexDigits => { name := "A...F", argument := .none, hidden := true, notInPrograms := true }
  | .clearAllMenu => { name := "CLALL", argument := .none, hidden := true }
  | .solveProgramMenu => { name := "PGMSLV", argument := .program, hidden := true }
  | .integrateProgramMenu => { name := "PGMINT", argument := .program, hidden := true }
  | .menuStoreSecond => { name := "STO", argument := .other, hidden := true }
  | .menuSolve => { name := "SOLVE", argument := .other, hidden := true }
  | .maximum => { name := "[MAX]", argument := .none }
  | .minimum => { name := "[MIN]", argument := .none }
  | .findElement => { name := "[FIND]", argument := .none }
  | .externalFunction => { name := "XROM", argument := .other, hidden := true }
  | .openFile => { name := "OPENF", argument := .none }
  | .closeFile => { name := "CLOSF", argument := .none }
  | .readProgram => { name := "READP", argument := .none }
  | .writeProgram => { name := "WRITP", argument := .none }
  | .getXY => { name := "GETXY", argument := .none }
  | .putXY => { name := "PUTXY", argument := .none }
  | .clearFileProgram => { name := "CLRP", argument := .none }
  | .clearFileData => { name := "CLRD", argument := .none }
  | .appendFile => { name := "APPD", argument := .none }
  | .getNumber => { name := "GETN", argument := .none }
  | .putNumber => { name := "PUTN", argument := .none }
  | .getComplex => { name := "GETZ", argument := .none }
  | .putComplex => { name := "PUTZ", argument := .none }
  | .deleteFile => { name := "DELP", argument := .none }
  | .drop => { name := "DROP", argument := .none }
  | .acceleration => { name := "ACCEL", argument := .none }
  | .location => { name := "LOCAT", argument := .none }
  | .heading => { name := "HEADING", argument := .none }
  | .alphaDate => { name := "ADATE", argument := .none }
  | .alarmCatalog => { name := "ALMCAT", argument := .none, hidden := true }
  | .alarmNow => { name := "ALMNOW", argument := .none, hidden := true }
  | .alphaTime => { name := "ATIME", argument := .none }
  | .alphaTime24 => { name := "ATIME24", argument := .none }
  | .clock12 => { name := "CLK12", argument := .none }
  | .clock24 => { name := "CLK24", argument := .none }
  | .clockTime => { name := "CLKT", argument := .none, hidden := true }
  | .clockTimeDate => { name := "CLKTD", argument := .none, hidden := true }
  | .clock => { name := "CLOCK", argument := .none, hidden := true }
  | .correctTime => { name := "CORRECT", argument := .none, hidden := true }
  | .date => { name := "DATE", argument := .none }
  | .datePlus => { name := "DATE+", argument := .none }
  | .daysBetween => { name := "DDAYS", argument := .none }
  | .dayMonthYear => { name := "DMY", argument := .none }
  | .dayOfWeek => { name := "DOW", argument := .none }
  | .monthDayYear => { name := "MDY", argument := .none }
  | .recallAccuracy => { name := "RCLAF", argument := .none, hidden := true }
  | .recallStopwatch => { name := "RCLSW", argument := .none, hidden := true }
  | .runStopwatch => { name := "RUNSW", argument := .none, hidden := true }
  | .setAccuracy => { name := "SETAF", argument := .none, hidden := true }
  | .setDate => { name := "SETDATE", argument := .none, hidden := true }
  | .setTime => { name := "SETIME", argument := .none, hidden := true }
  | .setStopwatch => { name := "SETSW", argument := .none, hidden := true }
  | .stopStopwatch => { name := "STOPSW", argument := .none, hidden := true }
  | .stopwatch => { name := "SW", argument := .none, hidden := true }
  | .timePlusX => { name := "T+X", argument := .none, hidden := true }
  | .time => { name := "TIME", argument := .none }
  | .setAlarm => { name := "XYZALM", argument := .none, hidden := true }
  | .clearAlarmByAlpha => { name := "CLALMA", argument := .none, hidden := true }
  | .clearAlarmByX => { name := "CLALMX", argument := .none, hidden := true }
  | .clearAlarms => { name := "CLRALMS", argument := .none, hidden := true }
  | .recallAlarm => { name := "RCLALM", argument := .none, hidden := true }
  | .stopwatchPoint => { name := "SWPT", argument := .none, hidden := true }
  | .numberTest => { name := "FPTEST", argument := .none }
  | .storeLocal => { name := "LSTO", argument := .named }
  | .singleStepUp => { name := "SST^", argument := .none }
  | .singleStepRight => { name := "SST→", argument := .none }
  | .wordSize => { name := "WSIZE", argument := .none }
  | .whichWordSize => { name := "WSIZE?", argument := .none }
  | .yearMonthDay => { name := "YMD", argument := .none }
  | .signedBase => { name := "BSIGNED", argument := .none }
  | .wrappingBase => { name := "BWRAP", argument := .none }
  | .resetBase => { name := "BRESET", argument := .none }
  | .function => { name := "FUNC", argument := .upTo99, onlyInPrograms := true }
  | .localFourLevel => { name := "L4STK", argument := .none, onlyInPrograms := true }
  | .localManyLevel => { name := "LNSTK", argument := .none, onlyInPrograms := true }
  | .fourLevel => { name := "4STK", argument := .none }
  | .manyLevel => { name := "NSTK", argument := .none }
  | .returnYes => { name := "RTNYES", argument := .none, onlyInPrograms := true }
  | .returnNo => { name := "RTNNO", argument := .none, onlyInPrograms := true }
  | .returnError => { name := "RTNERR", argument := .upTo99, onlyInPrograms := true }
  | .newList => { name := "NEWLIST", argument := .none }
  | .longText => { name := "XSTR", argument := .longText }
  | .duplicate => { name := "DUP", argument := .none }

/-- Every command, in the order of their numbers. -/
def all : Array Opcode :=
  #[.clearX, .enter, .exchangeXY, .rollDown, .negate, .divide, .multiply, .subtract, .add,
    .lastX, .silentOff, .silentOn, .sin, .cos, .tan, .asin, .acos, .atan, .log, .tenToX, .ln,
    .expX, .squareRoot, .square, .reciprocal, .power, .percent, .pi, .complex, .store,
    .storeDivide, .storeMultiply, .storeSubtract, .storeAdd, .recall, .recallDivide,
    .recallMultiply, .recallSubtract, .recallAdd, .fixed, .scientific, .engineering, .allDigits,
    .null, .alphaStore, .alphaRecall, .clearAlpha, .degrees, .radians, .gradians, .rectangular,
    .polar, .size, .quiet, .complexResults, .realResults, .keyAssignments, .localLabels,
    .radixDot, .radixComma, .clearSums, .clearProgram, .clearVariable, .clearStack,
    .clearRegisters, .deleteLines, .clearKeys, .clearDisplay, .clearMenu, .clearAll, .toDegrees,
    .toRadians, .toHours, .toHoursMinutesSeconds, .toRectangular, .toPolar, .integerPart,
    .fractionalPart, .round, .absolute, .sign, .modulo, .setFlag, .clearFlag, .isFlagSet,
    .isFlagClear, .isFlagSetThenClear, .isFlagClearThenClear, .combinations, .permutations,
    .factorial, .gamma, .random, .seed, .label, .returnFromCall, .input, .view, .viewAlpha,
    .execute, .prompt, .pause, .incrementSkipGreater, .decrementSkipEqual, .appendIntegerPart,
    .xToAlpha, .alphaGraph, .pixel, .beep, .tone, .menuVariable, .variableMenu, .getKey, .menu,
    .keyGoto, .keyExecute, .isXZero, .isXNonzero, .isXNegative, .isXPositive, .isXAtMostZero,
    .isXAtLeastZero, .isXEqualY, .isXUnequalY, .isXBelowY, .isXAboveY, .isXAtMostY, .isXAtLeastY,
    .printSums, .printProgram, .printVariable, .printStack, .printAlpha, .printX, .printUser,
    .printLines, .advancePaper, .printDisplay, .delay, .printerOn, .printerOff, .printManual,
    .printNormal, .printTrace, .sumAdd, .sumSubtract, .goto, .endOfProgram, .number, .shortText,
    .run, .singleStep, .gotoLine, .gotoNewProgram, .stop, .newMatrix, .rollUp, .isReal,
    .isComplex, .isText, .isMatrix, .dimensions, .assign, .assignKey, .assign01, .assign02,
    .assign03, .assign04, .assign05, .assign06, .assign07, .assign08, .assign09, .assign10,
    .assign11, .assign12, .assign13, .assign14, .assign15, .assign16, .assign17, .assign18,
    .turnOn, .turnOff, .key1Goto, .key2Goto, .key3Goto, .key4Goto, .key5Goto, .key6Goto,
    .key7Goto, .key8Goto, .key9Goto, .key1Execute, .key2Execute, .key3Execute, .key4Execute,
    .key5Execute, .key6Execute, .key7Execute, .key8Execute, .key9Execute, .menuExecute,
    .menuStore, .sumRegisters, .whichSumRegisters, .clearMessage, .acosh, .alphaLength, .allSums,
    .bitAnd, .alphaOff, .alphaOn, .alphaRotate, .alphaShift, .asinh, .atanh, .alphaToX, .baseAdd,
    .baseSubtract, .baseMultiply, .baseDivide, .baseNegate, .bestFit, .binaryMode, .isBitSet,
    .backStep, .correlation, .cosh, .crossProduct, .customMenu, .decimalMode, .deleteRow,
    .determinant, .dimension, .dotProduct, .editX, .editNamed, .exitAll, .exponentialFit,
    .expXMinusOne, .forecastX, .forecastY, .frobeniusNorm, .getMatrix, .growMode, .hexMode,
    .addHours, .subtractHours, .rowDown, .rowUp, .indexMatrix, .insertRow, .integrate, .invert,
    .columnRight, .columnLeft, .linearFit, .linearSums, .lnOnePlusX, .logarithmicFit, .mean,
    .bitNot, .octalMode, .recallElementAtCursor, .bitOr, .solveProgram, .integrateProgram,
    .alphaPosition, .putMatrix, .powerFit, .recallElement, .recallCursor, .rowNorm, .rotateBits,
    .rowSum, .exchangeRows, .standardDeviation, .sinh, .slope, .solve, .storeElement,
    .storeCursor, .sum, .tanh, .transpose, .unitVector, .weightedMean, .wrapMode, .exchangeX,
    .bitXor, .yIntercept, .toDecimal, .toOctal, .cursorLeft, .cursorUp, .cursorDown,
    .cursorRight, .percentChange, .simultaneousEquations, .coefficientMatrix, .constantMatrix,
    .solutionMatrix, .gotoRow, .gotoColumn, .hexDigits, .clearAllMenu, .solveProgramMenu,
    .integrateProgramMenu, .menuStoreSecond, .menuSolve, .maximum, .minimum, .findElement,
    .externalFunction, .openFile, .closeFile, .readProgram, .writeProgram, .getXY, .putXY,
    .clearFileProgram, .clearFileData, .appendFile, .getNumber, .putNumber, .getComplex,
    .putComplex, .deleteFile, .drop, .acceleration, .location, .heading, .alphaDate,
    .alarmCatalog, .alarmNow, .alphaTime, .alphaTime24, .clock12, .clock24, .clockTime,
    .clockTimeDate, .clock, .correctTime, .date, .datePlus, .daysBetween, .dayMonthYear,
    .dayOfWeek, .monthDayYear, .recallAccuracy, .recallStopwatch, .runStopwatch, .setAccuracy,
    .setDate, .setTime, .setStopwatch, .stopStopwatch, .stopwatch, .timePlusX, .time, .setAlarm,
    .clearAlarmByAlpha, .clearAlarmByX, .clearAlarms, .recallAlarm, .stopwatchPoint, .numberTest,
    .storeLocal, .singleStepUp, .singleStepRight, .wordSize, .whichWordSize, .yearMonthDay,
    .signedBase, .wrappingBase, .resetBase, .function, .localFourLevel, .localManyLevel,
    .fourLevel, .manyLevel, .returnYes, .returnNo, .returnError, .newList, .longText, .duplicate]

/-- The number of a command. -/
def code (opcode : Opcode) : Nat := opcode.ctorIdx

/-- The command with a number, if there is one. -/
def ofCode? (code : Nat) : Option Opcode := all[code]?

def name (opcode : Opcode) : String := opcode.specification.name

def argumentKind (opcode : Opcode) : ArgumentKind := opcode.specification.argument

def isHidden (opcode : Opcode) : Bool := opcode.specification.hidden

def isOnlyInPrograms (opcode : Opcode) : Bool := opcode.specification.onlyInPrograms

def isImmediate (opcode : Opcode) : Bool := opcode.specification.immediate

def isProgrammable (opcode : Opcode) : Bool := !opcode.specification.notInPrograms

/-- Jumps with a number or a letter keep a cache of their target behind the argument. -/
def hasTargetCache : Opcode → Bool
  | .goto | .execute => true
  | _ => false

/-- How a command is listed; a command without a name is listed by its number. -/
def display (opcode : Opcode) : String :=
  match opcode with
  | .number => "NUMBER"
  | .shortText => "STRING"
  | _ => if opcode.name.isEmpty then s!"#{opcode.code}" else opcode.name

end Opcode

end Keystroke
