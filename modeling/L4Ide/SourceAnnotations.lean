import L4Ide.TokenLexer

set_option autoImplicit false

/-!
# Source annotations

A node keeps the tokens it was read from: clusters of tokens, and holes where the nodes below it
go, each with its range. The range of a node spans those of its elements that the user wrote.
-/
namespace L4Ide.SourceAnnotations
open TokenLexer

inductive NodeVisibility where
 | hidden | visible
 deriving DecidableEq, Repr

structure ConcreteSyntaxNode where
 tokens : List PosToken
 range : Option SrcRange
 visibility : NodeVisibility
 deriving DecidableEq

structure CsnCluster where
 payload : ConcreteSyntaxNode
 trailing : ConcreteSyntaxNode
 deriving DecidableEq

inductive AnnoElement where
 | annoHole (range:Option SrcRange)
 | annoCsn (range:Option SrcRange) (cluster:CsnCluster)
 deriving DecidableEq

structure Anno where
 range : Option SrcRange
 payload : List AnnoElement
 deriving DecidableEq

def rangeOfAll (ranges:List (Option SrcRange)) : Option SrcRange :=
 match ranges.filterMap id, (ranges.filterMap id).getLast? with
 | h::rs, some l=>some ⟨h.start,l.stop,((h::rs).map SrcRange.length).sum,l.moduleUri⟩
 | _, _=>none

def AnnoElement.rangeOf : AnnoElement → Option SrcRange
 | .annoHole srcRange=>srcRange
 | .annoCsn srcRange _=>srcRange

def AnnoElement.isVisible : AnnoElement → Bool
 | .annoHole _=>true
 | .annoCsn _ csn=>csn.payload.visibility == .visible

def Anno.rangeOf (a:Anno) : Option SrcRange :=
 rangeOfAll ((a.payload.filter AnnoElement.isVisible).map AnnoElement.rangeOf)

def fixAnnoSrcRange (ann:Anno) : Anno :=
 { ann with range:=rangeOfAll (ann.payload.map AnnoElement.rangeOf) }

def mkAnno (es:List AnnoElement) : Anno := fixAnnoSrcRange ⟨none,es⟩

def emptyAnno : Anno := mkAnno []

def mkCluster (csn:CsnCluster) : AnnoElement := .annoCsn csn.payload.range csn

/-- Two annotations with different ranges are merged into one without a range. -/
def Anno.append (a b:Anno) : Anno :=
 if a=⟨none,[]⟩ then b
 else if b=⟨none,[]⟩ then a
 else if a.range=b.range then ⟨a.range,a.payload ++ b.payload⟩
 else ⟨none,a.payload ++ b.payload⟩

instance : Append Anno := ⟨Anno.append⟩

def mkConcreteSyntaxNode (posTokens:List PosToken) : ConcreteSyntaxNode where
 tokens:=posTokens
 range :=
  match posTokens, posTokens.getLast? with
  | lo::ts, some hi=>some ⟨lo.range.start,hi.range.stop,
    ((lo::ts).map fun t=>t.range.length).sum,lo.range.moduleUri⟩
  | _, _=>none
 visibility:=if posTokens.isEmpty then .hidden else .visible

def mkHiddenConcreteSyntaxNode (ps:List PosToken) : ConcreteSyntaxNode :=
 { mkConcreteSyntaxNode ps with visibility:=.hidden }

structure Lexeme (A:Type) where
 trailingTokens : List PosToken
 payload : A
 hiddenClusters : List CsnCluster

structure Epa (A:Type) where
 original : List PosToken
 trailingTokens : List PosToken
 payload : A
 hiddenClusters : List CsnCluster

section Epa
variable {A B:Type}

def Epa.map (f:A → B) (p:Epa A) : Epa B :=
 ⟨p.original,p.trailingTokens,f p.payload,p.hiddenClusters⟩

def epaToCluster (p:Epa A) : CsnCluster :=
 ⟨mkConcreteSyntaxNode p.original,mkHiddenConcreteSyntaxNode p.trailingTokens⟩

def epaToHiddenCluster (p:Epa A) : CsnCluster :=
 ⟨mkHiddenConcreteSyntaxNode p.original,mkHiddenConcreteSyntaxNode p.trailingTokens⟩

def mkSimpleEpaAnno (p:Epa A) : Anno :=
 mkAnno ((epaToCluster p::p.hiddenClusters).map mkCluster)

def lexToEpa (l:Lexeme PosToken) : Epa PosToken :=
 ⟨[l.payload],l.trailingTokens,l.payload,l.hiddenClusters⟩

def lexToEpa' (l:Lexeme (PosToken × A)) : Epa A :=
 ⟨[l.payload.1],l.trailingTokens,l.payload.2,l.hiddenClusters⟩

end Epa

def mkHoleAnnoFor (range:Option SrcRange) : Anno := mkAnno [.annoHole range]

end L4Ide.SourceAnnotations
