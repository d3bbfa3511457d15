import L4Ide.Syntax

set_option autoImplicit false

/-!
# The initial environment

Builtin names, numbered in the order the environment lists them.
-/
namespace L4Ide.Environment
open Syntax

def builtinUri : String := "jl4:builtin"

def preDef (t:String) : Name := ⟨.normalName t⟩

def builtinUnique (i:ℤ) : Unique := ⟨'b', i,builtinUri⟩

def booleanName : Name := preDef "BOOLEAN"

def booleanUnique : Unique := builtinUnique 1

def falseName : Name := preDef "FALSE"

def falseUnique : Unique := builtinUnique 3

def trueName : Name := preDef "TRUE"

def trueUnique : Unique := builtinUnique 5

def falseRef : Resolved := .ref falseName falseUnique falseName

def trueRef : Resolved := .ref trueName trueUnique trueName

def numberUnique : Unique := builtinUnique 7

def dateUnique : Unique := builtinUnique 9

def stringUnique : Unique := builtinUnique 11

def listUnique : Unique := builtinUnique 15

def emptyName : Name := preDef "EMPTY"

def emptyUnique : Unique := builtinUnique 17

def maybeName : Name := preDef "MAYBE"

def maybeUnique : Unique := builtinUnique 19

def nothingName : Name := preDef "NOTHING"

def nothingUnique : Unique := builtinUnique 21

def justName : Name := preDef "JUST"

def justUnique : Unique := builtinUnique 23

def nothingRef : Resolved := .ref nothingName nothingUnique nothingName

def justRef : Resolved := .ref justName justUnique justName

def fulfilName : Name := preDef "FULFILLED"

def fulfilUnique : Unique := builtinUnique 33

def fulfilRef : Resolved := .ref fulfilName fulfilUnique fulfilName

def eventCName : Name := preDef "EVENT"

def eventCUnique : Unique := builtinUnique 39

def eventCRef : Resolved := .ref eventCName eventCUnique eventCName

def dateFromDMYName : Name := preDef "DATE_FROM_DMY"

def dateFromDMYUnique : Unique := builtinUnique 93

def dateFromDMYRef : Resolved := .ref dateFromDMYName dateFromDMYUnique dateFromDMYName

def consName : Name := preDef "__CONS__"

def consUnique : Unique := builtinUnique 141

def consRef : Resolved := .ref consName consUnique consName

def underscoreName : Name := preDef "_"

def underscoreUnique : Unique := builtinUnique 163

def underscoreRef : Resolved := .ref underscoreName underscoreUnique underscoreName

def timeUnique : Unique := builtinUnique 197

def timeFromHMSName : Name := preDef "TIME_FROM_HMS"

def timeFromHMSUnique : Unique := builtinUnique 209

def timeFromHMSRef : Resolved := .ref timeFromHMSName timeFromHMSUnique timeFromHMSName

def datetimeUnique : Unique := builtinUnique 213

def datetimeFromDTZName : Name := preDef "DATETIME_FROM_DTZ"

def datetimeFromDTZUnique : Unique := builtinUnique 223

def datetimeFromDTZRef : Resolved :=
 .ref datetimeFromDTZName datetimeFromDTZUnique datetimeFromDTZName

end L4Ide.Environment
