import TokenTariff.Main
import TokenTariff.Proofs.Dictionary
import TokenTariff.Proofs.Tariff.Index
import TokenTariff.Proofs.CacheFile
import TokenTariff.Proofs.Doubles
import TokenTariff.Proofs.Json.NumberValues
import TokenTariff.Proofs.Json.Reordering
import TokenTariff.Proofs.Service.Restart
import TokenTariff.Proofs.Service.Runs
import TokenTariff.Proofs.Tariff.Feed
import TokenTariff.Proofs.Tariff.Meaning
import TokenTariff.Proofs.Service.FirstTick
import TokenTariff.Proofs.Program
import TokenTariff.Proofs.Service.Emptiness
import TokenTariff.Proofs.Json.SpanEnds
import TokenTariff.Proofs.Directories
import TokenTariff.Proofs.Saves
import TokenTariff.Proofs.Tariff.Additions
import TokenTariff.Proofs.Tariff.LongContextNames
import TokenTariff.Proofs.Service.Overlaps
import TokenTariff.Proofs.Tariff.LooseMatches
import TokenTariff.Proofs.Tariff.RegionsAndMakers
import TokenTariff.Proofs.Tariff.LongContexts
import TokenTariff.Proofs.DoubleSigns
import TokenTariff.Proofs.Tariff.CacheWrites
import TokenTariff.Proofs.Tariff.OwnRates
import TokenTariff.Proofs.Tariff.TierTables
import TokenTariff.Proofs.Tariff.Unpriced
import TokenTariff.Proofs.Tariff.HourRates
import TokenTariff.Proofs.Tariff.UsageTexts
import TokenTariff.Proofs.CommandLine.GivenTokens
import TokenTariff.Proofs.CommandLine.EffectiveOptions
import TokenTariff.Proofs.Report.Answers
import TokenTariff.Proofs.Tariff.Respellings
import TokenTariff.Proofs.CommandLine.WrittenCalls
