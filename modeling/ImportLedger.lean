import ImportLedger.Main
import ImportLedger.Proofs.DeclaredNames
import ImportLedger.Proofs.BoundReferences
import ImportLedger.Proofs.LineReferences
import ImportLedger.Proofs.ScanClassification
import ImportLedger.Proofs.Exclusions
import ImportLedger.Proofs.Independence
import ImportLedger.Proofs.ReportText
import ImportLedger.Proofs.ManifestRoundTrip
import ImportLedger.Proofs.RecordPlaces
import ImportLedger.Proofs.DevelopmentSections
import ImportLedger.Proofs.FlagIndependence
import ImportLedger.Proofs.RepeatedRuns
import ImportLedger.Proofs.BindingSearch
import ImportLedger.Proofs.UsageCounts
import ImportLedger.Proofs.FoundFiles
import ImportLedger.Proofs.BindingLines
import ImportLedger.Proofs.CountedNames
import ImportLedger.Proofs.KeywordTokens
import ImportLedger.Proofs.KeywordGaps
import ImportLedger.Proofs.JoinedLines
import ImportLedger.Proofs.ByteLines
import ImportLedger.Proofs.FlatBindings
import ImportLedger.Proofs.DeclaredSets
import ImportLedger.Proofs.ColoredReports
import ImportLedger.Proofs.UsageTotals
import ImportLedger.Proofs.NamedConfig
import ImportLedger.Proofs.SettingsText
import ImportLedger.Proofs.PackageNames
import ImportLedger.Proofs.ReferenceGrammar
import ImportLedger.Proofs.StatementStarts
